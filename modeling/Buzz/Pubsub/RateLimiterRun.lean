import Buzz.Lib.QuotaWindow
import Buzz.Lib.Runs
import Buzz.Pubsub.RateLimiter

namespace Buzz.Pubsub.RateLimiter

open Buzz.Lib

section Budgets

def LimitType.windowSecs : LimitType → ℕ
  | wsEvents => WS_BURST_WINDOW_SECS
  | messages | apiCalls | ipConnections => 60

def Counter.window (c : Counter) : ℕ := 1000 * c.limitType.windowSecs

/-- The most that a check of a kind of operation allows. -/
def capacity (cfg : RateLimitConfig) : LimitType → ℕ
  | .messages => max cfg.humanMessagesPerMin.toNat cfg.agentStandardMessagesPerMin.toNat
  | .apiCalls => cfg.humanApiCallsPerMin.toNat
  | .wsEvents => (wsAdmissionBudget cfg.humanWsEventsPerSec).2.toNat
  | .ipConnections => 0

theorem LimitType.windowSecs_pos (t : LimitType) : 0 < t.windowSecs := by cases t <;> decide

theorem budgets_spec {cfg : RateLimitConfig} {request : Request} {budget : Budget}
    (h : budget ∈ request.budgets cfg) :
    budget.windowSecs = budget.limitType.windowSecs ∧
      budget.limit.toNat ≤ capacity cfg budget.limitType := by
  cases request with
  | http =>
    rw [List.mem_singleton.mp h]
    exact ⟨rfl, le_rfl⟩
  | ws frame agent =>
    simp only [Request.budgets] at h
    unfold enforceWsAdmission at h
    by_cases hother : frame = .other
    · rw [if_pos hother] at h
      cases h
    · rw [if_neg hother] at h
      cases agent with
      | none => cases h
      | some isAgent =>
        rcases List.mem_cons.mp h with rfl | h
        · exact ⟨rfl, le_rfl⟩
        · split_ifs at h with hframe hagent
          · rw [List.mem_singleton.mp h]
            exact ⟨rfl, le_max_right _ _⟩
          · rw [List.mem_singleton.mp h]
            exact ⟨rfl, le_max_left _ _⟩
          · cases h

end Budgets

section Windows

variable (cfg : RateLimitConfig) (w : World)

def inWindow (log : List Check) (counter : Counter) (ends : ℕ) : ℕ :=
  log.countP fun c ↦ c.counter = counter && c.ends = ends

structure Check.Valid (now : ℕ) (c : Check) : Prop where
  time_le : c.time ≤ now
  le_ends : c.time ≤ c.ends
  ends_le : c.ends ≤ c.time + c.counter.window
  limit_le : c.limit.toNat ≤ capacity cfg c.counter.limitType
  admitted : c.result = .ok () → c.count ≤ c.limit.toNat
  exceeded : ∀ secs, c.result = .error (.exceeded secs) →
    c.limit.toNat < c.count ∧ secs = (c.ends - c.time + 500) / 1000

/-- The server has the number of the checks in the last window of a counter until that is over. -/
structure World.Stored (counter : Counter) : Prop where
  absent : w.redis.entries counter.rateLimitKey = none →
    ∀ c ∈ w.log, c.counter = counter → c.ends < w.redis.now
  present : ∀ e, w.redis.entries counter.rateLimitKey = some e →
    ∃ deadline, e = ⟨toString (inWindow w.log counter deadline), some deadline⟩ ∧
      1 ≤ inWindow w.log counter deadline ∧ inWindow w.log counter deadline < 2 ^ 63 ∧
      deadline ≤ w.redis.now + counter.window ∧
      ∀ c ∈ w.log, c.counter = counter → c.ends = deadline ∨ c.ends + counter.window < deadline

structure World.Counts (counter : Counter) (c : Check) : Prop where
  counter_eq : c.counter = counter
  time_eq : c.time = w.redis.now
  count_eq : c.count = inWindow w.log counter c.ends + 1
  count_lt : c.count < 2 ^ 63
  apart : ∀ d ∈ w.log, d.counter = counter → d.ends = c.ends ∨ d.ends + counter.window < c.ends
  valid : c.Valid cfg w.redis.now

def World.counted (counter : Counter) (c : Check) : World :=
  { w with
    redis := w.redis.setEntry counter.rateLimitKey (some ⟨toString c.count, some c.ends⟩)
    log := w.log ++ [c] }

structure World.Inv : Prop where
  repaired : w.repairs = []
  stored : ∀ counter, w.Stored counter
  valid : ∀ c ∈ w.log, c.Valid cfg w.redis.now
  apart : ∀ c ∈ w.log, ∀ d ∈ w.log, c.counter = d.counter → c.ends < d.ends →
    c.ends + c.counter.window < d.ends
  counted : ∀ pre c post, w.log = pre ++ c :: post →
    c.count = inWindow pre c.counter c.ends + 1
  ordered : w.log.Pairwise fun c d ↦ c.time ≤ d.time

end Windows

section Step

variable {cfg : RateLimitConfig} {w : World} {counter : Counter} {budget : Budget} {lost : Bool}

theorem inWindow_concat (log : List Check) (c : Check) (counter : Counter) (ends : ℕ) :
    inWindow (log ++ [c]) counter ends =
      inWindow log counter ends + if c.counter = counter ∧ c.ends = ends then 1 else 0 := by
  rw [inWindow, List.countP_append, List.countP_singleton, inWindow]
  simp only [Bool.and_eq_true, decide_eq_true_eq]

theorem inWindow_eq_zero {log : List Check} {ends : ℕ}
    (h : ∀ c ∈ log, c.counter = counter → c.ends ≠ ends) : inWindow log counter ends = 0 := by
  rw [inWindow, List.countP_eq_zero]
  intro c hc
  simp only [Bool.and_eq_true, decide_eq_true_eq, not_and]
  exact h c hc

theorem windowEnd_setEntry (r : Redis) (counter : Counter) (value : String) (deadline : ℕ) :
    World.windowEnd (r.setEntry counter.rateLimitKey (some ⟨value, some deadline⟩)) counter =
      deadline := by
  simp only [World.windowEnd, Redis.entries_setEntry_self, Option.bind_some, Option.getD_some]

theorem counts_of_script {count deadline reset : ℕ}
    (hscript : rateLimitScript w.redis counter.rateLimitKey budget.windowSecs =
      (w.redis.setEntry counter.rateLimitKey (some ⟨toString count, some deadline⟩),
        .ok (count, (reset : ℤ))))
    (hreset : reset = (deadline - w.redis.now + 500) / 1000)
    (hcount : count = inWindow w.log counter deadline + 1) (hlt : count < 2 ^ 63)
    (hle : w.redis.now ≤ deadline) (hend : deadline ≤ w.redis.now + counter.window)
    (hlimit : budget.limit.toNat ≤ capacity cfg counter.limitType)
    (hapart : ∀ d ∈ w.log, d.counter = counter →
      d.ends = deadline ∨ d.ends + counter.window < deadline) :
    ∃ c, w.Counts cfg counter c ∧
      w.check counter budget lost = w.counted counter c := by
  set redis := w.redis.setEntry counter.rateLimitKey (some ⟨toString count, some deadline⟩)
    with hredis
  have hends : World.windowEnd redis counter = deadline := windowEnd_setEntry _ _ _ _
  have hjudge : World.judge redis counter budget count reset lost =
      ⟨counter, budget.limit, w.redis.now, count, deadline, checkPrincipal <|
        if lost then .error "Redis rate limit script"
        else .ok (.ofCount count budget.limit reset)⟩ := by
    rw [World.judge, hends, hredis, Redis.now_setEntry]
  refine ⟨⟨counter, budget.limit, w.redis.now, count, deadline, checkPrincipal <|
      if lost then .error "Redis rate limit script"
      else .ok (.ofCount count budget.limit reset)⟩,
    ⟨rfl, rfl, hcount, hlt, hapart, ⟨le_rfl, hle, hend, hlimit, ?_, ?_⟩⟩, ?_⟩
  · intro h
    simp only [RateLimitResult.ofCount] at h
    split_ifs at h with hlost hcount
    · cases h
    · exact hcount
    · cases h
  · intro secs h
    simp only [RateLimitResult.ofCount] at h
    split_ifs at h with hlost hcount
    · cases h
    · cases h
    · cases h
      exact ⟨not_le.mp hcount, hreset⟩
  · rw [World.check, hscript]
    show (if _ then _ else _) = _
    rw [if_neg fun hneg ↦ absurd hneg.1 (by omega), Int.toNat_natCast, hjudge]
    rfl

theorem check_spec (h : w.Inv cfg) (hwindow : budget.windowSecs = counter.limitType.windowSecs)
    (hlimit : budget.limit.toNat ≤ capacity cfg counter.limitType) :
    w.check counter budget lost = w ∨ ∃ c, w.Counts cfg counter c ∧
      w.check counter budget lost = w.counted counter c := by
  have hstored := h.stored counter
  have hpos : 0 < budget.windowSecs := by
    rw [hwindow]
    exact counter.limitType.windowSecs_pos
  have hend : 1000 * budget.windowSecs = counter.window := by rw [hwindow, Counter.window]
  cases hlive : w.redis.live counter.rateLimitKey with
  | none =>
    have hpast : ∀ c ∈ w.log, c.counter = counter → c.ends < w.redis.now := by
      intro c hc hcounter
      cases he : w.redis.entries counter.rateLimitKey with
      | none => exact hstored.absent he c hc hcounter
      | some e =>
        obtain ⟨deadline, rfl, -, -, -, hends⟩ := hstored.present e he
        have hexpired := Redis.live_eq_none_iff.mp hlive _ he
        simp only [Redis.Entry.expired, decide_eq_true_eq] at hexpired
        rcases hends c hc hcounter with heq | hlt
        · omega
        · omega
    right
    refine counts_of_script (rateLimitScript_fresh hlive hpos) ?_ ?_ ?_ ?_ ?_ hlimit ?_
    · rw [Nat.add_sub_cancel_left]
    · rw [inWindow_eq_zero]
      intro c hc hcounter
      have hlt := hpast c hc hcounter
      omega
    · decide
    · omega
    · omega
    · intro c hc hcounter
      have hlt := hpast c hc hcounter
      omega
  | some e =>
    obtain ⟨he, hunexpired⟩ := Redis.live_eq_some_iff.mp hlive
    obtain ⟨deadline, rfl, hone, hlt, hdeadline, hends⟩ := hstored.present e he
    have hnow : w.redis.now ≤ deadline := by
      simpa only [Redis.Entry.expired, decide_eq_false_iff_not, not_lt] using hunexpired
    have hscript : rateLimitScript w.redis counter.rateLimitKey budget.windowSecs = _ :=
      rateLimitScript_live hone hlt hlive
    by_cases hmax : inWindow w.log counter deadline = 2 ^ 63 - 1
    · left
      rw [World.check, hscript, if_pos hmax]
    · right
      rw [if_neg hmax] at hscript
      exact counts_of_script hscript rfl rfl (by omega) hnow hdeadline hlimit hends

theorem World.Counts.stored_self {c : Check} (hc : w.Counts cfg counter c) :
    (w.counted counter c).Stored counter := by
  have hends := hc.valid.ends_le
  rw [hc.time_eq, hc.counter_eq] at hends
  have hcount : inWindow (w.log ++ [c]) counter c.ends = c.count := by
    rw [inWindow_concat, if_pos ⟨hc.counter_eq, rfl⟩, hc.count_eq]
  have hentry : (w.counted counter c).redis.entries counter.rateLimitKey =
      some ⟨toString c.count, some c.ends⟩ := Redis.entries_setEntry_self
  constructor
  case absent =>
    intro hnone
    rw [hentry] at hnone
    cases hnone
  case present =>
    intro e he
    rw [hentry] at he
    refine ⟨c.ends, ?_, ?_, ?_, hends, forall_mem_concat hc.apart fun _ ↦ .inl rfl⟩
    · rw [← Option.some.inj he]
      show _ = Redis.Entry.mk (toString (inWindow (w.log ++ [c]) counter c.ends)) _
      rw [hcount]
    · show 1 ≤ inWindow (w.log ++ [c]) counter c.ends
      rw [hcount, hc.count_eq]
      exact Nat.le_add_left 1 _
    · show inWindow (w.log ++ [c]) counter c.ends < _
      rw [hcount]
      exact hc.count_lt

theorem World.Counts.stored_ne {c : Check} (hc : w.Counts cfg counter c) {counter' : Counter}
    (heq : counter' ≠ counter) (hstored : w.Stored counter') :
    (w.counted counter c).Stored counter' := by
  have hkey : counter'.rateLimitKey ≠ counter.rateLimitKey :=
    fun hkey ↦ heq (rateLimitKey_injective hkey)
  have hentry : (w.counted counter c).redis.entries counter'.rateLimitKey =
      w.redis.entries counter'.rateLimitKey := Redis.entries_setEntry_ne hkey
  have hne : c.counter ≠ counter' := fun h' ↦ heq (h'.symm.trans hc.counter_eq)
  have hsame (ends : ℕ) : inWindow (w.counted counter c).log counter' ends =
      inWindow w.log counter' ends := by
    show inWindow (w.log ++ [c]) counter' ends = _
    rw [inWindow_concat, if_neg fun h' ↦ hne h'.1, Nat.add_zero]
  have hall (P : Check → Prop) (hP : ∀ d ∈ w.log, d.counter = counter' → P d) :
      ∀ d ∈ (w.counted counter c).log, d.counter = counter' → P d :=
    forall_mem_concat hP fun hcounter ↦ absurd hcounter hne
  constructor
  case absent =>
    intro hnone
    rw [hentry] at hnone
    exact hall _ (hstored.absent hnone)
  case present =>
    intro e he
    rw [hentry] at he
    obtain ⟨deadline, hvalue, hone, hlt, hdeadline, hends⟩ := hstored.present e he
    refine ⟨deadline, ?_, ?_, ?_, hdeadline, hall _ hends⟩
    · rw [hsame]
      exact hvalue
    · rw [hsame]
      exact hone
    · rw [hsame]
      exact hlt

theorem World.Counts.inv {c : Check} (h : w.Inv cfg) (hc : w.Counts cfg counter c) :
    (w.counted counter c).Inv cfg where
  repaired := h.repaired
  stored counter' := by
    rcases eq_or_ne counter' counter with heq | heq
    · rw [heq]
      exact hc.stored_self
    · exact hc.stored_ne heq (h.stored counter')
  valid := forall_mem_concat h.valid hc.valid
  apart := by
    refine forall_mem_concat
      (fun d hd ↦ forall_mem_concat (h.apart d hd) fun hcounter hlt ↦ ?_)
      (forall_mem_concat (fun d hd hcounter hlt ↦ ?_) fun _ hlt ↦ absurd hlt (lt_irrefl _))
    · have hcounter := hcounter.trans hc.counter_eq
      rw [hcounter]
      exact (hc.apart d hd hcounter).resolve_left hlt.ne
    · rcases hc.apart d hd (hcounter.symm.trans hc.counter_eq) with heq | hbefore
      · omega
      · omega
  counted := by
    apply forall_split_concat h.counted
    rw [hc.counter_eq]
    exact hc.count_eq
  ordered := by
    apply List.pairwise_append.mpr
    refine ⟨h.ordered, List.pairwise_singleton _ _, fun d hd d' hd' ↦ ?_⟩
    rw [List.mem_singleton.mp hd', hc.time_eq]
    exact (h.valid d hd).time_le

/-- Time passes, expired keys go, and no counter is touched. -/
theorem World.Inv.quiet (h : w.Inv cfg) {r : Redis} (hnow : w.redis.now ≤ r.now)
    (hentries : ∀ counter : Counter,
      r.entries counter.rateLimitKey = w.redis.entries counter.rateLimitKey ∨
        (r.entries counter.rateLimitKey = none ∧
          ∃ e, w.redis.entries counter.rateLimitKey = some e ∧ e.expired r.now = true)) :
    World.Inv cfg { w with redis := r } where
  repaired := h.repaired
  stored counter := by
    have hstored := h.stored counter
    rcases hentries counter with hsame | ⟨hnone, e, he, hexpired⟩
    · constructor
      case absent =>
        intro hnone c hc hcounter
        rw [hsame] at hnone
        exact (hstored.absent hnone c hc hcounter).trans_le hnow
      case present =>
        intro e he
        rw [hsame] at he
        obtain ⟨deadline, hvalue, hone, hlt, hdeadline, hends⟩ := hstored.present e he
        exact ⟨deadline, hvalue, hone, hlt, hdeadline.trans (Nat.add_le_add_right hnow _), hends⟩
    · obtain ⟨deadline, rfl, -, -, -, hends⟩ := hstored.present e he
      simp only [Redis.Entry.expired, decide_eq_true_eq] at hexpired
      constructor
      case absent =>
        intro _ c hc hcounter
        rcases hends c hc hcounter with heq | hlt
        · exact heq ▸ hexpired
        · exact (Nat.le_add_right _ _).trans_lt (hlt.trans hexpired)
      case present =>
        intro e he
        rw [hnone] at he
        cases he
  valid c hc := { h.valid c hc with time_le := (h.valid c hc).time_le.trans hnow }
  apart := h.apart
  counted := h.counted
  ordered := h.ordered

theorem step_inv (h : w.Inv cfg) (op : Op) : (w.step cfg op).Inv cfg := by
  cases op with
  | check community pubkey request i lost =>
    rw [World.step]
    cases hi : (request.budgets cfg)[i]? with
    | none => exact h
    | some budget =>
      show (w.check ⟨community, pubkey, budget.limitType⟩ budget lost).Inv cfg
      obtain ⟨hwindow, hlimit⟩ := budgets_spec (List.mem_of_getElem? hi)
      obtain heq | ⟨c, hc, heq⟩ :
          w.check ⟨community, pubkey, budget.limitType⟩ budget lost = w ∨ _ :=
        check_spec h hwindow hlimit
      · rwa [heq]
      · rw [heq]
        exact hc.inv h
  | repair i lost =>
    rw [World.step, h.repaired]
    exact h
  | tick ms => exact h.quiet (Nat.le_add_right _ _) fun _ ↦ .inl rfl
  | evict key =>
    have hnow : (w.redis.evict key).now = w.redis.now := Redis.now_evict
    refine h.quiet hnow.ge fun counter ↦ ?_
    rw [hnow]
    exact Redis.entries_evict w.redis key _
  | other key entry foreign =>
    exact h.quiet le_rfl fun counter ↦ .inl (Redis.entries_setEntry_ne (foreign counter))

theorem start_inv (cfg : RateLimitConfig) (now : ℕ) : (World.start now).Inv cfg where
  repaired := rfl
  stored _ := ⟨fun _ c hc ↦ (List.not_mem_nil hc).elim, fun e he ↦ by cases he⟩
  valid c hc := by cases hc
  apart c hc := by cases hc
  counted pre c post h := by simp [World.start] at h
  ordered := .nil

theorem reachable_inv (cfg : RateLimitConfig) (now : ℕ) (ops : List Op) :
    (World.run cfg now ops).Inv cfg :=
  List.foldlRecOn ops _ (start_inv cfg now) fun _ h op _ ↦ step_inv h op

end Step

section Limits

def admittedBetween (log : List Check) (counter : Counter) (t t' : ℕ) : ℕ :=
  log.countP fun c ↦
    c.counter = counter && c.result.isOk && (decide (t ≤ c.time) && decide (c.time ≤ t'))

/-- What the limits come to, with any number of pods: in an interval of a window's length a counter
has at most twice its limit admitted; a check is turned down only after as many others as its limit
within the last window, and one that comes half a second after the wait it was told only after as
many since then; and no key is ever found without a deadline. -/
structure Limited (cfg : RateLimitConfig) (w : World) : Prop where
  interval : ∀ counter t, admittedBetween w.log counter t (t + counter.window) ≤
    2 * capacity cfg counter.limitType
  exceeded : ∀ pre c post secs, w.log = pre ++ c :: post → c.result = .error (.exceeded secs) →
    c.limit.toNat ≤ pre.countP fun d ↦
      d.counter = c.counter && decide (c.time ≤ d.time + c.counter.window)
  retry : ∀ pre c mid d post secs secs', w.log = pre ++ c :: (mid ++ d :: post) →
    c.counter = d.counter → c.result = .error (.exceeded secs) →
    c.time + 1000 * secs + 500 ≤ d.time → d.result = .error (.exceeded secs') →
    d.limit.toNat ≤ mid.countP fun e ↦ e.counter = d.counter
  repaired : w.repairs = []

variable {cfg : RateLimitConfig} {w : World}

theorem admitted_le_capacity {log : List Check} {now : ℕ}
    (hvalid : ∀ c ∈ log, c.Valid cfg now)
    (hcounted : ∀ pre c post, log = pre ++ c :: post → c.count = inWindow pre c.counter c.ends + 1)
    (counter : Counter) (ends : ℕ) :
    (log.countP fun c ↦ c.counter = counter && c.result.isOk && c.ends = ends) ≤
      capacity cfg counter.limitType := by
  induction log using List.reverseRecOn with
  | nil => exact Nat.zero_le _
  | append_singleton log c ih =>
    have hprior := ih (fun d hd ↦ hvalid d (List.mem_append_left _ hd))
      (fun pre d post heq ↦ hcounted pre d (post ++ [c]) (by rw [heq]; simp))
    rw [List.countP_append, List.countP_singleton]
    split_ifs with hc
    · simp only [Bool.and_eq_true, decide_eq_true_eq] at hc
      obtain ⟨⟨rfl, hok⟩, rfl⟩ := hc
      have hvalid := hvalid c (List.mem_append_right _ (List.mem_singleton_self c))
      have hresult : c.result = .ok () := by
        cases hresult : c.result with
        | ok u => rfl
        | error e =>
          rw [hresult] at hok
          cases hok
      have hcount := hcounted log c [] rfl
      have hle := hvalid.admitted hresult
      have hlimit := hvalid.limit_le
      have hsub : (log.countP fun d ↦ d.counter = c.counter && d.result.isOk && d.ends = c.ends) ≤
          inWindow log c.counter c.ends := by
        apply List.countP_mono_left
        intro d _ hd
        simp only [Bool.and_eq_true, decide_eq_true_eq] at hd ⊢
        exact ⟨hd.1.1, hd.2⟩
      omega
    · exact hprior

def charges (log : List Check) (counter : Counter) : List (Charge Counter) :=
  (log.filter fun c ↦ c.counter = counter && c.result.isOk).map fun c ↦
    ⟨counter, c.time, c.ends - counter.window⟩

theorem mem_charges {log : List Check} {counter : Counter} {charge : Charge Counter}
    (h : charge ∈ charges log counter) :
    ∃ c ∈ log, c.counter = counter ∧ c.result.isOk = true ∧
      charge = ⟨counter, c.time, c.ends - counter.window⟩ := by
  obtain ⟨c, hc, rfl⟩ := List.mem_map.mp h
  obtain ⟨hmem, hcounter⟩ := List.mem_filter.mp hc
  rw [Bool.and_eq_true, decide_eq_true_eq] at hcounter
  exact ⟨c, hmem, hcounter.1, hcounter.2, rfl⟩

theorem World.Inv.charges (h : w.Inv cfg) (counter : Counter) :
    ∃ row, QuotaInv (counter.window + 1) (capacity cfg counter.limitType) row w.redis.now
      (charges w.log counter) := by
  apply QuotaInv.of_windows
  · intro charge hcharge
    obtain ⟨c, hc, rfl, -, rfl⟩ := mem_charges hcharge
    obtain ⟨htime, hle, hend, -, -, -⟩ := h.valid c hc
    dsimp only
    omega
  · intro charge hcharge charge' hcharge' _ hlt
    obtain ⟨c, hc, rfl, -, rfl⟩ := mem_charges hcharge
    obtain ⟨c', hc', hcounter, -, rfl⟩ := mem_charges hcharge'
    dsimp only at hlt ⊢
    have happart := h.apart c hc c' hc' hcounter.symm (by omega)
    omega
  · intro k start
    have hle := admitted_le_capacity h.valid h.counted counter
      (start + counter.window).toNat
    have hsub : Lib.inWindow (RateLimiter.charges w.log counter) k start ≤
        w.log.countP fun c ↦
          c.counter = counter && c.result.isOk && c.ends = (start + counter.window).toNat := by
      rw [Lib.inWindow, RateLimiter.charges, List.countP_map, List.countP_filter]
      apply List.countP_mono_left
      intro c _ hc
      simp only [Function.comp_apply, Bool.and_eq_true, decide_eq_true_eq] at hc ⊢
      exact ⟨hc.2, by omega⟩
    omega

theorem World.Inv.interval (h : w.Inv cfg) (counter : Counter) (t : ℕ) :
    admittedBetween w.log counter t (t + counter.window) ≤
      2 * capacity cfg counter.limitType := by
  obtain ⟨row, hquota⟩ := h.charges counter
  have hle := hquota.between_le (by omega) counter t
  have hsub : admittedBetween w.log counter t (t + counter.window) ≤
      between (RateLimiter.charges w.log counter) counter t (t + (counter.window + 1)) := by
    rw [between, RateLimiter.charges, List.countP_map, List.countP_filter, admittedBetween]
    apply List.countP_mono_left
    intro c _ hc
    simp only [Function.comp_apply, Bool.and_eq_true, decide_eq_true_eq] at hc ⊢
    obtain ⟨hcounter, ht, ht'⟩ := hc
    exact ⟨⟨trivial, by omega, by omega⟩, hcounter⟩
  omega

theorem World.Inv.le_inWindow (h : w.Inv cfg) {pre post : List Check} {c : Check} {secs : ℕ}
    (hlog : w.log = pre ++ c :: post) (hexceeded : c.result = .error (.exceeded secs)) :
    c.limit.toNat ≤ inWindow pre c.counter c.ends := by
  have hlt := ((h.valid c (by simp [hlog])).exceeded secs hexceeded).1
  have hcount := h.counted pre c post hlog
  omega

theorem World.Inv.exceeded (h : w.Inv cfg) {pre post : List Check} {c : Check} {secs : ℕ}
    (hlog : w.log = pre ++ c :: post) (hexceeded : c.result = .error (.exceeded secs)) :
    c.limit.toNat ≤ pre.countP fun d ↦
      d.counter = c.counter && decide (c.time ≤ d.time + c.counter.window) := by
  refine (h.le_inWindow hlog hexceeded).trans (List.countP_mono_left fun d hd hsame ↦ ?_)
  simp only [Bool.and_eq_true, decide_eq_true_eq] at hsame ⊢
  obtain ⟨hcounter, hends⟩ := hsame
  have hle := (h.valid c (by simp [hlog])).le_ends
  have hend := (h.valid d (by simp [hlog, hd])).ends_le
  rw [hcounter] at hend
  exact ⟨hcounter, by omega⟩

/-- The window that a told wait outlasts has no check in common with the one that goes on. -/
theorem World.Inv.retry (h : w.Inv cfg) {pre mid post : List Check} {c d : Check} {secs secs' : ℕ}
    (hlog : w.log = pre ++ c :: (mid ++ d :: post)) (hcounter : c.counter = d.counter)
    (hexceeded : c.result = .error (.exceeded secs)) (hwait : c.time + 1000 * secs + 500 ≤ d.time)
    (hexceeded' : d.result = .error (.exceeded secs')) :
    d.limit.toNat ≤ mid.countP fun e ↦ e.counter = d.counter := by
  have hc : c ∈ w.log := by simp [hlog]
  have hd : d ∈ w.log := by simp [hlog]
  have hsplit : w.log = (pre ++ c :: mid) ++ d :: post := by simp [hlog]
  have hle := h.le_inWindow hsplit hexceeded'
  have hsecs := ((h.valid c hc).exceeded secs hexceeded).2
  have hle' := (h.valid c hc).le_ends
  have hd' := (h.valid d hd).le_ends
  have happart := h.apart c hc d hd hcounter (by omega)
  have hbefore : inWindow pre d.counter d.ends = 0 := by
    apply inWindow_eq_zero
    intro e he hcounter' hends
    have hend := (h.valid e (by simp [hlog, he])).ends_le
    have hordered := h.ordered
    rw [hlog] at hordered
    have hearlier := (List.pairwise_append.mp hordered).2.2 e he c List.mem_cons_self
    rw [hcounter', ← hcounter] at hend
    omega
  rw [inWindow, List.countP_append, List.countP_cons] at hle
  rw [inWindow] at hbefore
  have hnot : (c.counter = d.counter && c.ends = d.ends : Bool) = false := by
    rw [Bool.and_eq_false_iff, decide_eq_false_iff_not, decide_eq_false_iff_not]
    exact .inr (by omega)
  rw [hbefore, hnot] at hle
  refine (by simpa using hle : _ ≤ _).trans (List.countP_mono_left fun e _ he ↦ ?_)
  rw [Bool.and_eq_true] at he
  exact he.1

theorem run_limited (cfg : RateLimitConfig) (now : ℕ) (ops : List Op) :
    Limited cfg (World.run cfg now ops) :=
  have h := reachable_inv cfg now ops
  ⟨h.interval, fun _ _ _ _ ↦ h.exceeded, fun _ _ _ _ _ _ _ ↦ h.retry, h.repaired⟩

end Limits

end Buzz.Pubsub.RateLimiter
