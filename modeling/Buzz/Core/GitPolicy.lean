import Buzz.Core.GitPerms

namespace Buzz.Core.GitPerms

inductive UpdateKind
  | create | fastForward | nonFastForward | delete
deriving DecidableEq, Repr

structure RefUpdate where
  refName : String
  kind : UpdateKind
deriving DecidableEq

structure ProtectionRule where
  pattern : RefPattern
  pushRole : Option MemberRole
  noForcePush : Bool
  noDelete : Bool
  requirePatch : Bool
deriving DecidableEq

/-- The higher of two push roles; the first stays on a tie. -/
def stricter (existing : Option MemberRole) (role : MemberRole) : Option MemberRole :=
  match existing with
  | none => some role
  | some existing =>
    if role.permissionLevel > existing.permissionLevel then some role else some existing

def defaultMinRole (refName : String) (kind : UpdateKind) : MemberRole :=
  let isBranch := "refs/heads/".toList.isPrefixOf refName.toList
  let isTag := "refs/tags/".toList.isPrefixOf refName.toList
  match kind with
  | .create => if isBranch || isTag then .member else .admin
  | .fastForward => if isBranch then .member else if isTag then .admin else .admin
  | .nonFastForward => .admin
  | .delete => .admin

structure EffectiveRules where
  pushRole : Option MemberRole := none
  noForcePush : Bool := false
  noDelete : Bool := false
  requirePatch : Bool := false
  hasExplicitMatch : Bool := false

namespace EffectiveRules

def union (effective : EffectiveRules) (rule : ProtectionRule) : EffectiveRules where
  hasExplicitMatch := true
  pushRole := match rule.pushRole with
    | some role => stricter effective.pushRole role
    | none => effective.pushRole
  noForcePush := effective.noForcePush || rule.noForcePush
  noDelete := effective.noDelete || rule.noDelete
  requirePatch := effective.requirePatch || rule.requirePatch

def unionMatching (refName : String) (effective : EffectiveRules) (rule : ProtectionRule) :
    EffectiveRules :=
  if !rule.pattern.matchesRef refName then effective else effective.union rule

def forRef (refName : String) (rules : List ProtectionRule) : EffectiveRules :=
  rules.foldl (unionMatching refName) {}

end EffectiveRules

structure Denial where
  refName : String
  reason : String
deriving DecidableEq

def minRole (explicit : Option MemberRole) (defaultRole : MemberRole) : MemberRole :=
  match explicit with
  | some explicit =>
    if explicit.permissionLevel ≥ defaultRole.permissionLevel then explicit else defaultRole
  | none => defaultRole

def evaluateRefUpdate (update : RefUpdate) (role : MemberRole) (rules : List ProtectionRule) :
    Except Denial Unit :=
  let effective := EffectiveRules.forRef update.refName rules
  let defaultRole := defaultMinRole update.refName update.kind
  if !effective.hasExplicitMatch then
    if !role.hasAtLeast defaultRole then
      .error ⟨update.refName, "requires " ++ defaultRole.asStr ++ " role (you have " ++ role.asStr ++
        "), using built-in defaults"⟩
    else .ok ()
  else if effective.requirePatch then
    .error ⟨update.refName,
      "direct push denied: require-patch is set, submit a NIP-34 patch"⟩
  else
    let required := minRole effective.pushRole defaultRole
    if !role.hasAtLeast required then
      .error ⟨update.refName, "requires " ++ required.asStr ++ " role (you have " ++ role.asStr ++
        ")"⟩
    else if effective.noForcePush && update.kind == .nonFastForward then
      .error ⟨update.refName, "non-fast-forward update denied: no-force-push is set"⟩
    else if effective.noDelete && update.kind == .delete then
      .error ⟨update.refName, "ref deletion denied: no-delete is set"⟩
    else .ok ()

def denialOf (role : MemberRole) (rules : List ProtectionRule) (update : RefUpdate) :
    Option Denial :=
  match evaluateRefUpdate update role rules with
  | .ok _ => none
  | .error denial => some denial

def evaluatePush (updates : List RefUpdate) (role : MemberRole) (rules : List ProtectionRule) :
    Except (List Denial) Unit :=
  let denials := updates.filterMap (denialOf role rules)
  if denials.isEmpty then .ok () else .error denials

section Policy

variable {rules rules' : List ProtectionRule} {update : RefUpdate} {role : MemberRole}

def matching (refName : String) (rules : List ProtectionRule) : List ProtectionRule :=
  rules.filter fun rule ↦ rule.pattern.matchesRef refName

def ProtectionRule.AppliesTo (rule : ProtectionRule) (refName : String) : Prop :=
  RefPattern.SegmentsMatch rule.pattern.segments (splitSlash refName)

structure Permits (role : MemberRole) (rules : List ProtectionRule) (update : RefUpdate) :
    Prop where
  defaultRole : (defaultMinRole update.refName update.kind).permissionLevel ≤ role.permissionLevel
  pushRole : ∀ rule ∈ rules, rule.AppliesTo update.refName →
    ∀ required, rule.pushRole = some required → required.permissionLevel ≤ role.permissionLevel
  requirePatch : ∀ rule ∈ rules, rule.AppliesTo update.refName → rule.requirePatch = false
  noForcePush : update.kind = .nonFastForward →
    ∀ rule ∈ rules, rule.AppliesTo update.refName → rule.noForcePush = false
  noDelete : update.kind = .delete →
    ∀ rule ∈ rules, rule.AppliesTo update.refName → rule.noDelete = false

theorem forall_matching_iff {refName : String} {P : ProtectionRule → Prop} :
    (∀ rule ∈ matching refName rules, P rule) ↔
      ∀ rule ∈ rules, rule.AppliesTo refName → P rule := by
  simp only [matching, List.mem_filter, RefPattern.matchesRef_iff, and_imp,
    ProtectionRule.AppliesTo]

section Strictest

variable {roles : List MemberRole} {existing : Option MemberRole}

theorem le_stricter_iff {required : MemberRole} {n : ℕ} :
    (∀ r, stricter existing required = some r → r.permissionLevel ≤ n) ↔
      (∀ r, existing = some r → r.permissionLevel ≤ n) ∧ required.permissionLevel ≤ n := by
  cases existing with
  | none => simp [stricter]
  | some e =>
    unfold stricter
    simp only
    split <;> simp only [Option.some.injEq, forall_eq'] <;> omega

/-- A bound on the strictest role is a bound on all of them. -/
theorem foldl_stricter_le_iff {n : ℕ} :
    (∀ r, roles.foldl stricter existing = some r → r.permissionLevel ≤ n) ↔
      (∀ r, existing = some r → r.permissionLevel ≤ n) ∧ ∀ r ∈ roles, r.permissionLevel ≤ n := by
  induction roles generalizing existing with
  | nil => simp
  | cons required roles ih =>
    rw [List.foldl_cons, ih, le_stricter_iff, List.forall_mem_cons, and_assoc]

theorem mem_of_foldl_stricter {r : MemberRole} (h : roles.foldl stricter existing = some r) :
    existing = some r ∨ r ∈ roles := by
  induction roles generalizing existing with
  | nil => exact .inl h
  | cons required roles ih =>
    rcases ih h with hstep | hmem
    · cases existing with
      | none =>
        cases hstep
        exact .inr List.mem_cons_self
      | some e =>
        unfold stricter at hstep
        simp only at hstep
        split at hstep
        · cases hstep
          exact .inr List.mem_cons_self
        · exact .inl hstep
    · exact .inr (List.mem_cons_of_mem _ hmem)

theorem isSome_foldl_stricter (h : existing.isSome = true ∨ roles ≠ []) :
    (roles.foldl stricter existing).isSome = true := by
  induction roles generalizing existing with
  | nil => exact h.resolve_right fun hne ↦ hne rfl
  | cons required roles ih =>
    refine ih (.inl ?_)
    cases existing with
    | none => rfl
    | some e =>
      unfold stricter
      simp only
      split <;> rfl

/-- The strictest role is the one of the highest level, wherever it stands. -/
theorem foldl_stricter_eq_some_iff {r : MemberRole} : roles.foldl stricter none = some r ↔
    r ∈ roles ∧ ∀ r' ∈ roles, r'.permissionLevel ≤ r.permissionLevel := by
  constructor
  · intro h
    refine ⟨(mem_of_foldl_stricter h).resolve_left nofun, ?_⟩
    refine (foldl_stricter_le_iff.mp (?_ : ∀ r', roles.foldl stricter none = some r' →
      r'.permissionLevel ≤ r.permissionLevel)).2
    intro r' hr'
    rw [h] at hr'
    cases hr'
    exact Nat.le_refl _
  · rintro ⟨hmem, hmax⟩
    have hsome : (roles.foldl stricter none).isSome = true :=
      isSome_foldl_stricter (.inr (List.ne_nil_of_mem hmem))
    obtain ⟨r', hr'⟩ := Option.isSome_iff_exists.mp hsome
    have hmem' := (mem_of_foldl_stricter hr').resolve_left nofun
    have hle : r.permissionLevel ≤ r'.permissionLevel := by
      refine (foldl_stricter_le_iff.mp (?_ : ∀ r'', roles.foldl stricter none = some r'' →
        r''.permissionLevel ≤ r'.permissionLevel)).2 r hmem
      intro r'' hr''
      rw [hr'] at hr''
      cases hr''
      exact Nat.le_refl _
    rw [hr', MemberRole.permissionLevel_injective (Nat.le_antisymm (hmax r' hmem') hle)]

end Strictest

theorem foldl_unionMatching {refName : String} (effective : EffectiveRules) :
    rules.foldl (EffectiveRules.unionMatching refName) effective =
      (matching refName rules).foldl EffectiveRules.union effective := by
  rw [matching, List.foldl_filter]
  congr 1
  funext effective rule
  unfold EffectiveRules.unionMatching
  cases rule.pattern.matchesRef refName <;> rfl

theorem foldl_union (effective : EffectiveRules) (rules : List ProtectionRule) :
    rules.foldl EffectiveRules.union effective =
      { hasExplicitMatch := effective.hasExplicitMatch || !rules.isEmpty
        pushRole := (rules.filterMap ProtectionRule.pushRole).foldl stricter effective.pushRole
        noForcePush := effective.noForcePush || rules.any ProtectionRule.noForcePush
        noDelete := effective.noDelete || rules.any ProtectionRule.noDelete
        requirePatch := effective.requirePatch || rules.any ProtectionRule.requirePatch } := by
  induction rules generalizing effective with
  | nil => simp
  | cons rule rules ih =>
    rw [List.foldl_cons, ih]
    cases hp : rule.pushRole <;> simp [EffectiveRules.union, hp, Bool.or_assoc]

theorem forRef_eq (refName : String) (rules : List ProtectionRule) :
    EffectiveRules.forRef refName rules =
      { hasExplicitMatch := !(matching refName rules).isEmpty
        pushRole := ((matching refName rules).filterMap ProtectionRule.pushRole).foldl stricter none
        noForcePush := (matching refName rules).any ProtectionRule.noForcePush
        noDelete := (matching refName rules).any ProtectionRule.noDelete
        requirePatch := (matching refName rules).any ProtectionRule.requirePatch } := by
  rw [EffectiveRules.forRef, foldl_unionMatching, foldl_union]
  simp

theorem pushRole_forRef_le_iff (refName : String) (rules : List ProtectionRule) (n : ℕ) :
    (∀ r, (EffectiveRules.forRef refName rules).pushRole = some r → r.permissionLevel ≤ n) ↔
      ∀ rule ∈ rules, rule.AppliesTo refName →
        ∀ r, rule.pushRole = some r → r.permissionLevel ≤ n := by
  rw [forRef_eq, ← forall_matching_iff]
  simp only [foldl_stricter_le_iff, List.mem_filterMap]
  constructor
  · intro h rule hrule r hr
    exact h.2 r ⟨rule, hrule, hr⟩
  · intro h
    refine ⟨nofun, ?_⟩
    rintro r ⟨rule, hrule, hr⟩
    exact h rule hrule r hr

/-- Rule lists with the same members have the same effect. -/
theorem forRef_congr (h : ∀ rule, rule ∈ rules' ↔ rule ∈ rules) (refName : String) :
    EffectiveRules.forRef refName rules' = EffectiveRules.forRef refName rules := by
  have hmem (rule : ProtectionRule) :
      rule ∈ matching refName rules' ↔ rule ∈ matching refName rules := by
    simp only [matching, List.mem_filter, h]
  have hany (p : ProtectionRule → Bool) :
      (matching refName rules').any p = (matching refName rules).any p := by
    rw [Bool.eq_iff_iff, List.any_eq_true, List.any_eq_true]
    simp only [hmem]
  have hempty : (matching refName rules').isEmpty = (matching refName rules).isEmpty := by
    rw [Bool.eq_iff_iff, List.isEmpty_iff, List.isEmpty_iff, List.eq_nil_iff_forall_not_mem,
      List.eq_nil_iff_forall_not_mem]
    simp only [hmem]
  have hrole : ((matching refName rules').filterMap ProtectionRule.pushRole).foldl stricter none =
      ((matching refName rules).filterMap ProtectionRule.pushRole).foldl stricter none := by
    refine Option.ext fun r ↦ ?_
    simp only [foldl_stricter_eq_some_iff, List.mem_filterMap, hmem]
  rw [forRef_eq, forRef_eq, hany, hany, hany, hempty, hrole]

theorem minRole_le_iff (explicit : Option MemberRole) (defaultRole : MemberRole) (n : ℕ) :
    (minRole explicit defaultRole).permissionLevel ≤ n ↔ defaultRole.permissionLevel ≤ n ∧
      ∀ r, explicit = some r → r.permissionLevel ≤ n := by
  cases explicit with
  | none => simp [minRole]
  | some e =>
    unfold minRole
    simp only [Option.some.injEq, forall_eq']
    split <;> omega

theorem hasAtLeast_iff {required : MemberRole} :
    role.hasAtLeast required = true ↔ required.permissionLevel ≤ role.permissionLevel := by
  simp [MemberRole.hasAtLeast]

theorem evaluateRefUpdate_eq_ok_iff :
    evaluateRefUpdate update role rules = .ok () ↔ Permits role rules update := by
  have hpush := pushRole_forRef_le_iff update.refName rules role.permissionLevel
  unfold evaluateRefUpdate
  by_cases hempty : matching update.refName rules = []
  · have hmatch : (EffectiveRules.forRef update.refName rules).hasExplicitMatch = false := by
      rw [forRef_eq, hempty]
      rfl
    simp only [hmatch, Bool.not_false, if_true]
    constructor
    · intro h
      split_ifs at h with hrole
      have hnone {P : ProtectionRule → Prop} :
          ∀ rule ∈ rules, rule.AppliesTo update.refName → P rule := by
        rw [← forall_matching_iff, hempty]
        exact fun rule hrule ↦ absurd hrule List.not_mem_nil
      exact ⟨hasAtLeast_iff.mp (by simpa using hrole), hnone, hnone, fun _ ↦ hnone,
        fun _ ↦ hnone⟩
    · intro h
      rw [hasAtLeast_iff.mpr h.defaultRole]
      rfl
  · have hmatch : (EffectiveRules.forRef update.refName rules).hasExplicitMatch = true := by
      simp [forRef_eq, hempty]
    have hmin := minRole_le_iff (EffectiveRules.forRef update.refName rules).pushRole
      (defaultMinRole update.refName update.kind) role.permissionLevel
    rw [hpush, ← hasAtLeast_iff] at hmin
    have hpatch : (EffectiveRules.forRef update.refName rules).requirePatch = false ↔
        ∀ rule ∈ rules, rule.AppliesTo update.refName → rule.requirePatch = false := by
      rw [← forall_matching_iff]
      simp [forRef_eq]
    have hforce : (EffectiveRules.forRef update.refName rules).noForcePush = false ↔
        ∀ rule ∈ rules, rule.AppliesTo update.refName → rule.noForcePush = false := by
      rw [← forall_matching_iff]
      simp [forRef_eq]
    have hdelete : (EffectiveRules.forRef update.refName rules).noDelete = false ↔
        ∀ rule ∈ rules, rule.AppliesTo update.refName → rule.noDelete = false := by
      rw [← forall_matching_iff]
      simp [forRef_eq]
    simp only [hmatch, Bool.not_true, Bool.false_eq_true, if_false]
    constructor
    · intro h
      split_ifs at h with h₁ h₂ h₃ h₄
      obtain ⟨hdefault, hroles⟩ := hmin.mp (by simpa using h₂)
      refine ⟨hdefault, hroles, hpatch.mp (by simpa using h₁), ?_, ?_⟩
      · intro hkind
        exact hforce.mp (by simpa [hkind] using h₃)
      · intro hkind
        exact hdelete.mp (by simpa [hkind] using h₄)
    · intro h
      rw [hpatch.mpr h.requirePatch, hmin.mpr ⟨h.defaultRole, h.pushRole⟩]
      simp only [Bool.false_eq_true, if_false, Bool.not_true]
      by_cases hf : update.kind = .nonFastForward
      · rw [hforce.mpr (h.noForcePush hf), hf]
        simp
      · by_cases hd : update.kind = .delete
        · rw [hdelete.mpr (h.noDelete hd), hd]
          simp
        · simp [hf, hd]

theorem denialOf_eq_none_iff : denialOf role rules update = none ↔ Permits role rules update := by
  rw [← evaluateRefUpdate_eq_ok_iff]
  unfold denialOf
  cases evaluateRefUpdate update role rules <;> simp

theorem evaluatePush_eq_ok_iff {updates : List RefUpdate} :
    evaluatePush updates role rules = .ok () ↔ ∀ update ∈ updates, Permits role rules update := by
  have hempty : (updates.filterMap (denialOf role rules)).isEmpty = true ↔
      ∀ update ∈ updates, Permits role rules update := by
    simp only [List.isEmpty_iff, List.filterMap_eq_nil_iff, denialOf_eq_none_iff]
  unfold evaluatePush
  rw [← hempty]
  simp only
  split
  · next h => simp [h]
  · next h => simp [h]

theorem evaluatePush_congr {updates : List RefUpdate} (h : ∀ rule, rule ∈ rules' ↔ rule ∈ rules) :
    evaluatePush updates role rules' = evaluatePush updates role rules := by
  have hdenial : denialOf role rules' = denialOf role rules := by
    funext update
    simp only [denialOf, evaluateRefUpdate, forRef_congr h]
  simp only [evaluatePush, hdenial]

theorem Permits.mono_rules (hsub : rules ⊆ rules') (h : Permits role rules' update) :
    Permits role rules update := by
  refine ⟨h.defaultRole, ?_, ?_, ?_, ?_⟩
  · intro rule hrule
    exact h.pushRole rule (hsub hrule)
  · intro rule hrule
    exact h.requirePatch rule (hsub hrule)
  · intro hkind rule hrule
    exact h.noForcePush hkind rule (hsub hrule)
  · intro hkind rule hrule
    exact h.noDelete hkind rule (hsub hrule)

theorem Permits.mono_role {role' : MemberRole}
    (hle : role.permissionLevel ≤ role'.permissionLevel) (h : Permits role rules update) :
    Permits role' rules update := by
  refine ⟨Nat.le_trans h.defaultRole hle, ?_, h.requirePatch, h.noForcePush, h.noDelete⟩
  intro rule hrule happlies required hrequired
  exact Nat.le_trans (h.pushRole rule hrule happlies required hrequired) hle

end Policy

/-- A push is allowed exactly if the declarative policy permits each update; so the verdict
depends on the set of rules only, more rules only tighten it, and a higher role only relaxes it. -/
theorem evaluatePush_policy (updates : List RefUpdate) (role : MemberRole)
    (rules : List ProtectionRule) :
    (evaluatePush updates role rules = .ok () ↔
        ∀ update ∈ updates, Permits role rules update) ∧
      (∀ rules', (∀ rule, rule ∈ rules' ↔ rule ∈ rules) →
        evaluatePush updates role rules' = evaluatePush updates role rules) ∧
      (∀ rules', rules ⊆ rules' → evaluatePush updates role rules' = .ok () →
        evaluatePush updates role rules = .ok ()) ∧
      (∀ role', role.permissionLevel ≤ role'.permissionLevel →
        evaluatePush updates role rules = .ok () →
        evaluatePush updates role' rules = .ok ()) := by
  refine ⟨evaluatePush_eq_ok_iff, fun rules' h ↦ evaluatePush_congr h, ?_, ?_⟩
  · intro rules' hsub h
    rw [evaluatePush_eq_ok_iff] at h ⊢
    intro update hupdate
    exact (h update hupdate).mono_rules hsub
  · intro role' hle h
    rw [evaluatePush_eq_ok_iff] at h ⊢
    intro update hupdate
    exact (h update hupdate).mono_role hle

end Buzz.Core.GitPerms
