import Mathlib.Data.List.Sort

namespace Buzz.Lib.Keyset

variable {κ σ : Type*} (before : κ → κ → Prop) [DecidableRel before]

def behind (keys : List κ) (cursor : Option κ) : List κ :=
  (keys.filter fun k ↦ cursor.all fun c ↦ before c k).insertionSort fun a b ↦ ¬before b a

def page (limit : ℕ) (keys : List κ) (cursor : Option κ) : List κ :=
  (behind before keys cursor).take limit

variable {before} {keys : List κ} {cursor : Option κ} {limit : ℕ} {k : κ}

theorem mem_behind : k ∈ behind before keys cursor ↔ k ∈ keys ∧ ∀ c ∈ cursor, before c k := by
  cases cursor <;> simp [behind]

theorem mem_behind_of_mem_page (h : k ∈ page before limit keys cursor) :
    k ∈ behind before keys cursor :=
  List.mem_of_mem_take h

section Rows

variable {α β : Type*} {f : α → κ}

theorem map_rows (f : α → κ) (rows : List α) (cursor : Option κ) :
    ((rows.filter fun r ↦ cursor.all fun c ↦ before c (f r)).insertionSort
      fun a b ↦ ¬before (f b) (f a)).map f = behind before (rows.map f) cursor := by
  rw [behind, List.filter_map, List.map_insertionSort (fun a b ↦ ¬before (f b) (f a))
    (fun a b ↦ ¬before b a) f _ fun _ _ _ _ ↦ Iff.rfl]
  rfl

theorem map_filterMap {g : α → Option β} {key : β → κ} {shown : κ → Bool} {rows : List α}
    (h : ∀ r ∈ rows, (g r).map key = if shown (f r) then some (f r) else none) :
    (rows.filterMap g).map key = (rows.map f).filter shown := by
  induction rows with
  | nil => rfl
  | cons r rows ih =>
    have hr := h r List.mem_cons_self
    have hrows := ih fun r' hr' ↦ h r' (List.mem_cons_of_mem r hr')
    cases hg : g r <;> cases hshown : shown (f r) <;> simp_all

theorem sublist_map_filterMap {g : α → Option β} {key : β → κ} (rows : List α)
    (h : ∀ r b, g r = some b → key b = f r) :
    ((rows.filterMap g).map key).Sublist (rows.map f) := by
  induction rows with
  | nil => exact List.Sublist.slnil
  | cons r rows ih =>
    rw [List.map_cons]
    cases hg : g r with
    | none =>
      rw [List.filterMap_cons_none hg]
      exact ih.cons _
    | some b =>
      rw [List.filterMap_cons_some hg, List.map_cons, h r b hg]
      exact ih.cons_cons _

end Rows

section Order

variable [IsStrictTotalOrder κ before]

theorem pairwise_behind (h : keys.Nodup) (cursor : Option κ) :
    (behind before keys cursor).Pairwise before := by
  have htotal : Std.Total fun a b ↦ ¬before b a :=
    ⟨fun a b ↦ or_iff_not_imp_left.mpr fun hba hab ↦ asymm hab (not_not.mp hba)⟩
  have htrans : IsTrans κ fun a b ↦ ¬before b a := by
    refine ⟨fun a b c hab hbc hca ↦ ?_⟩
    rcases trichotomous_of before b c with h | rfl | h
    · exact hab (trans_of before h hca)
    · exact hab hca
    · exact hbc h
  have hnodup : (behind before keys cursor).Nodup :=
    (List.perm_insertionSort _ _).nodup_iff.mpr (h.filter _)
  have hsorted := List.pairwise_insertionSort (fun a b ↦ ¬before b a)
    (keys.filter fun k ↦ cursor.all fun c ↦ before c k)
  refine hsorted.imp₂ (fun a b hba hne ↦ ?_) hnodup
  rcases trichotomous_of before a b with h | h | h
  · exact h
  · exact absurd h hne
  · exact absurd h hba

theorem pairwise_page (h : keys.Nodup) : (page before limit keys cursor).Pairwise before :=
  (pairwise_behind h cursor).sublist (List.take_sublist _ _)

theorem page_before (h : keys.Nodup) (hk : k ∈ behind before keys cursor)
    (hpage : k ∉ page before limit keys cursor) {x : κ} (hx : x ∈ page before limit keys cursor) :
    before x k := by
  have hpair : (behind before keys cursor).Pairwise before := pairwise_behind h cursor
  rw [← List.take_append_drop limit (behind before keys cursor)] at hk hpair
  refine (List.pairwise_append.mp hpair).2.2 x hx k ?_
  exact (List.mem_append.mp hk).resolve_left hpage

theorem not_mem_take_iff {l : List κ} (hl : l.Pairwise before) (hk : k ∈ l) :
    k ∉ l.take limit ↔ limit ≤ (l.filter fun x ↦ before x k).length := by
  obtain ⟨front, back, rfl⟩ := List.append_of_mem hk
  obtain ⟨-, hback, hfront⟩ := List.pairwise_append.mp hl
  have hfilter : (front ++ k :: back).filter (fun x ↦ before x k) = front := by
    rw [List.filter_append, List.filter_eq_self.mpr fun x hx ↦ by
      simpa using hfront x hx k List.mem_cons_self]
    have hnone : (k :: back).filter (fun x ↦ before x k) = [] := by
      refine List.filter_eq_nil_iff.mpr fun x hx hxk ↦ ?_
      rcases List.mem_cons.mp hx with rfl | hx
      · exact irrefl x (of_decide_eq_true hxk)
      · exact asymm (of_decide_eq_true hxk) ((List.pairwise_cons.mp hback).1 x hx)
    rw [hnone, List.append_nil]
  rw [hfilter, ← not_lt, not_iff_not]
  constructor
  · intro hmem
    by_contra hlen
    rw [List.take_append_of_le_length (not_lt.mp hlen)] at hmem
    exact irrefl k (hfront k (List.mem_of_mem_take hmem) k List.mem_cons_self)
  · intro hlen
    rw [List.take_append, List.mem_append]
    refine .inr ?_
    obtain ⟨n, hn⟩ := Nat.exists_eq_add_of_lt hlen
    rw [show limit - front.length = n + 1 by omega, List.take_succ_cons]
    exact List.mem_cons_self

/-- A page leaves out a key iff more lie behind its cursor than it holds. -/
theorem exists_left_out_iff (h : keys.Nodup) :
    (∃ k ∈ behind before keys cursor, k ∉ page before limit keys cursor) ↔
      limit < (behind before keys cursor).length := by
  constructor
  · rintro ⟨k, hk, hpage⟩
    by_contra hlen
    rw [page, List.take_of_length_le (not_lt.mp hlen)] at hpage
    exact hpage hk
  · intro hlen
    obtain ⟨k, hk⟩ := List.exists_mem_of_length_pos
      (show 0 < ((behind before keys cursor).drop limit).length by rw [List.length_drop]; omega)
    refine ⟨k, List.mem_of_mem_drop hk, fun hpage ↦ ?_⟩
    have hpair : (behind before keys cursor).Pairwise before := pairwise_behind h cursor
    rw [← List.take_append_drop limit (behind before keys cursor)] at hpair
    exact irrefl k ((List.pairwise_append.mp hpair).2.2 k hpage k hk)

theorem not_mem_page_iff (h : keys.Nodup) (hk : k ∈ behind before keys cursor) :
    k ∉ page before limit keys cursor ↔ limit ≤
      ((keys.filter fun x ↦ cursor.all fun c ↦ before c x).filter fun x ↦ before x k).length := by
  rw [page, not_mem_take_iff (pairwise_behind h cursor) hk]
  have hperm := (List.perm_insertionSort (fun a b ↦ ¬before b a)
    (keys.filter fun x ↦ cursor.all fun c ↦ before c x)).filter fun x ↦ before x k
  rw [← hperm.length_eq, behind]

theorem before_getLast (h : keys.Nodup) {c : κ} (hc : c ∈ (page before limit keys cursor).getLast?)
    {x : κ} (hx : x ∈ page before limit keys cursor) : x = c ∨ before x c := by
  obtain ⟨init, hinit⟩ := List.getLast?_eq_some_iff.mp hc
  have hpair : (page before limit keys cursor).Pairwise before := pairwise_page h
  rw [hinit] at hx hpair
  rcases List.mem_append.mp hx with hx | hx
  · exact .inr ((List.pairwise_append.mp hpair).2.2 x hx c List.mem_cons_self)
  · exact .inl (List.mem_singleton.mp hx)

end Order

inductive Walk (before : κ → κ → Prop) [DecidableRel before] (keys : σ → List κ)
    (shown : σ → κ → Bool) (limit : ℕ) :
    Option κ → List σ → Option κ → List κ → Prop
  | last (s : σ) (cursor : Option κ) : Walk before keys shown limit cursor [s] cursor
      ((page before limit (keys s) cursor).filter (shown s))
  | more {s : σ} {cursor : Option κ} {c : κ} {rest : List σ} {final : Option κ} {out : List κ} :
      c ∈ (page before limit (keys s) cursor).getLast? →
      Walk before keys shown limit (some c) rest final out →
      Walk before keys shown limit cursor (s :: rest) final
        ((page before limit (keys s) cursor).filter (shown s) ++ out)

namespace Walk

variable {keys : σ → List κ} {shown : σ → κ → Bool} {snapshots : List σ} {final : Option κ}
  {out : List κ}

theorem sound (h : Walk before keys shown limit cursor snapshots final out) (hk : k ∈ out) :
    ∃ s ∈ snapshots, k ∈ keys s ∧ shown s k = true := by
  induction h with
  | last s cursor =>
    obtain ⟨hpage, hshown⟩ := List.mem_filter.mp hk
    exact ⟨s, List.mem_cons_self, (mem_behind.mp (mem_behind_of_mem_page hpage)).1, hshown⟩
  | @more s cursor c rest final out hc hrest ih =>
    rcases List.mem_append.mp hk with hk | hk
    · obtain ⟨hpage, hshown⟩ := List.mem_filter.mp hk
      exact ⟨s, List.mem_cons_self, (mem_behind.mp (mem_behind_of_mem_page hpage)).1, hshown⟩
    · obtain ⟨s', hs', h⟩ := ih hk
      exact ⟨s', List.mem_cons_of_mem s hs', h⟩

theorem ne_nil (h : Walk before keys shown limit cursor snapshots final out) : snapshots ≠ [] := by
  cases h <;> exact List.cons_ne_nil _ _

variable [IsStrictTotalOrder κ before]

theorem behind_cursor (h : Walk before keys shown limit cursor snapshots final out)
    (hk : k ∈ out) : ∀ c ∈ cursor, before c k := by
  induction h with
  | last s cursor => exact (mem_behind.mp (mem_behind_of_mem_page (List.mem_of_mem_filter hk))).2
  | @more s cursor c rest final out hc hrest ih =>
    intro c₀ hc₀
    rcases List.mem_append.mp hk with hk | hk
    · exact (mem_behind.mp (mem_behind_of_mem_page (List.mem_of_mem_filter hk))).2 c₀ hc₀
    · have hlast := mem_behind.mp (mem_behind_of_mem_page (List.mem_of_getLast? hc))
      exact trans_of before (hlast.2 c₀ hc₀) (ih hk c rfl)

theorem final_reached (h : Walk before keys shown limit cursor snapshots final out) :
    ∀ c ∈ cursor, ∃ f ∈ final, c = f ∨ before c f := by
  induction h with
  | last s cursor => exact fun c hc ↦ ⟨c, hc, .inl rfl⟩
  | @more s cursor c rest final out hc hrest ih =>
    intro c₀ hc₀
    have hlast := (mem_behind.mp (mem_behind_of_mem_page (List.mem_of_getLast? hc))).2 c₀ hc₀
    obtain ⟨f, hf, rfl | hcf⟩ := ih c rfl
    · exact ⟨c, hf, .inr hlast⟩
    · exact ⟨f, hf, .inr (trans_of before hlast hcf)⟩

theorem pairwise (hkeys : ∀ s, (keys s).Nodup)
    (h : Walk before keys shown limit cursor snapshots final out) :
    out.Pairwise before := by
  induction h with
  | last s cursor => exact (pairwise_page (hkeys s)).sublist List.filter_sublist
  | @more s cursor c rest final out hc hrest ih =>
    refine List.pairwise_append.mpr
      ⟨(pairwise_page (hkeys s)).sublist List.filter_sublist, ih, fun a ha b hb ↦ ?_⟩
    have hcb := hrest.behind_cursor hb c rfl
    rcases before_getLast (hkeys s) hc (List.mem_of_mem_filter ha) with rfl | hac
    · exact hcb
    · exact trans_of before hac hcb

/-- A key that is there throughout is shown, unless the last page left it out. -/
theorem complete (hkeys : ∀ s, (keys s).Nodup)
    (h : Walk before keys shown limit cursor snapshots final out)
    (hk : ∀ s ∈ snapshots, k ∈ keys s ∧ shown s k = true) (hcursor : ∀ c ∈ cursor, before c k) :
    k ∈ out ∨ ∃ s ∈ snapshots.getLast?, k ∈ behind before (keys s) final ∧
      k ∉ page before limit (keys s) final := by
  induction h with
  | last s cursor =>
    obtain ⟨hmem, hshown⟩ := hk s List.mem_cons_self
    by_cases hpage : k ∈ page before limit (keys s) cursor
    · exact .inl (List.mem_filter.mpr ⟨hpage, hshown⟩)
    · exact .inr ⟨s, rfl, mem_behind.mpr ⟨hmem, hcursor⟩, hpage⟩
  | @more s cursor c rest final out hc hrest ih =>
    obtain ⟨hmem, hshown⟩ := hk s List.mem_cons_self
    by_cases hpage : k ∈ page before limit (keys s) cursor
    · exact .inl (List.mem_append_left _ (List.mem_filter.mpr ⟨hpage, hshown⟩))
    · have hck : before c k := page_before (hkeys s) (mem_behind.mpr ⟨hmem, hcursor⟩) hpage
        (List.mem_of_getLast? hc)
      have hstep := ih (fun s' hs' ↦ hk s' (List.mem_cons_of_mem s hs')) fun c' hc' ↦ by
        rwa [← Option.mem_some_iff.mp hc']
      refine hstep.imp (List.mem_append_right _) ?_
      rintro ⟨s', hs', h⟩
      exact ⟨s', by rwa [List.getLast?_cons_of_ne_nil hrest.ne_nil], h⟩

theorem before_left_out (hkeys : ∀ s, (keys s).Nodup)
    (h : Walk before keys shown limit cursor snapshots final out) {s : σ}
    (hs : s ∈ snapshots.getLast?) (hk : k ∈ behind before (keys s) final)
    (hpage : k ∉ page before limit (keys s) final) : ∀ x ∈ out, before x k := by
  induction h with
  | last s' cursor =>
    obtain rfl := Option.some.inj hs
    exact fun x hx ↦ page_before (hkeys s') hk hpage (List.mem_of_mem_filter hx)
  | @more s' cursor c rest final out hc hrest ih =>
    rw [List.getLast?_cons_of_ne_nil hrest.ne_nil] at hs
    have hck : before c k := by
      obtain ⟨f, hf, rfl | hcf⟩ := hrest.final_reached c rfl
      · exact (mem_behind.mp hk).2 c hf
      · exact trans_of before hcf ((mem_behind.mp hk).2 f hf)
    intro x hx
    rcases List.mem_append.mp hx with hx | hx
    · rcases before_getLast (hkeys s') hc (List.mem_of_mem_filter hx) with rfl | hxc
      · exact hck
      · exact trans_of before hxc hck
    · exact ih hs hk hpage x hx

end Walk

end Buzz.Lib.Keyset
