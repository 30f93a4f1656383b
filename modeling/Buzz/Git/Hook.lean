import Buzz.Git.Policy
import Buzz.Git.RefFormat
import Buzz.Lib.Sha256

namespace Buzz.Git

open Buzz.Lib Buzz.Lib.Hex Buzz.Nostr

structure HookEnv where
  repoId : String
  repoOwner : String
  communityId : String
  pusherPubkey : String
  hookUrl : String
  hookSecret : String

section Script

def zeroOid : List Char := List.replicate 40 '0'

/-- The escapes by `sed` inside `$(…)`. -/
def safe (text : List Char) : List Char :=
  Shell.capture (Shell.substitute '"' ['\\', '"'] (Shell.substitute '\\' ['\\', '\\'] text))

/-- What the reading loop has written. -/
structure Scan where
  refs : List Char
  hmacFile : List (List Char)

def Scan.next (isAncestor : List Char → List Char → Bool) (s : Scan) (input : List Char) : Scan :=
  let fields := Shell.read Shell.isBlank 2 (Shell.raw input)
  let oldOid := fields.getD 0 []
  let newOid := fields.getD 1 []
  let refName := fields.getD 2 []
  let ancestor := oldOid ≠ zeroOid && newOid ≠ zeroOid && isAncestor oldOid newOid
  let refs := if s.refs ≠ [] then s.refs ++ [','] else s.refs
  let entry := "\x7b\"old_oid\":\"".toList ++ oldOid ++ "\",\"new_oid\":\"".toList ++ newOid ++
    "\",\"ref_name\":\"".toList ++ safe refName ++ "\",\"is_ancestor\":".toList ++
    (if ancestor then "true" else "false").toList ++ "\x7d".toList
  { refs := refs ++ entry
    hmacFile := s.hmacFile ++ [refName ++ ' ' :: (oldOid ++ ' ' :: (newOid ++ ' ' ::
      [if ancestor then '1' else '0']))] }

def scan (isAncestor : List Char → List Char → Bool) (stdin : List (List Char)) : Scan :=
  stdin.foldl (Scan.next isAncestor) ⟨[], []⟩

/-- One round of the loop over the sorted lines. -/
def printLine (line : List Char) : List Char :=
  let fields := Shell.read (· = ' ') 3 (Shell.unescape line)
  let refName := fields.getD 0 []
  fields.getD 1 [] ++ (fields.getD 2 [] ++ ((toString (Utf8.len refName)).toList ++ ':' ::
    (refName ++ fields.getD 3 [])))

def hmacRefs (hmacFile : List (List Char)) : List Char :=
  if hmacFile = [] then [] else Shell.capture ((Shell.sort hmacFile).flatMap printLine)

namespace HookEnv

variable (env : HookEnv)

/-- The variables that the script requires. -/
def IsSet : Prop :=
  ∀ value ∈ [env.repoId, env.repoOwner, env.communityId, env.pusherPubkey, env.hookUrl,
    env.hookSecret], value ≠ ""

instance : Decidable env.IsSet := by
  unfold IsSet
  infer_instance

def hmacInput (s : Scan) (timestamp : ℕ) : List Char :=
  (toString (byteLen env.repoId)).toList ++ ':' :: (env.repoId.toList ++ '|' ::
    (env.repoOwner.toList ++ '|' :: (env.communityId.toList ++ '|' ::
      (env.pusherPubkey.toList ++ '|' :: (hmacRefs s.hmacFile ++ '|' ::
        (toString timestamp).toList)))))

def signature (hmac : List UInt8 → List UInt8 → List UInt8) (input : List Char) : List Char :=
  encodeBytes (hmac (Utf8.encode env.hookSecret.toList) (Utf8.encode input))

def body (s : Scan) (timestamp : ℕ) (signature : List Char) : List Char :=
  "\x7b\"repo_id\":\"".toList ++ safe env.repoId.toList ++ "\",\"repo_owner\":\"".toList ++
    env.repoOwner.toList ++ "\",\"community_id\":\"".toList ++ env.communityId.toList ++
    "\",\"pusher_pubkey\":\"".toList ++ env.pusherPubkey.toList ++
    "\",\"ref_updates\":[".toList ++ s.refs ++ "],\"timestamp\":".toList ++
    (toString timestamp).toList ++ ",\"signature\":\"".toList ++ signature ++ "\"\x7d".toList

end HookEnv

structure Posted where
  hmacInput : List Char
  body : List Char

def preReceive (hmac : List UInt8 → List UInt8 → List UInt8)
    (isAncestor : List Char → List Char → Bool) (env : HookEnv) (stdin : List (List Char))
    (timestamp : ℕ) : Option Posted :=
  if env.IsSet then
    let s := scan isAncestor stdin
    let input := env.hmacInput s timestamp
    let signature := env.signature hmac input
    if signature = [] then none
    else some ⟨input, env.body s timestamp signature⟩
  else none

end Script

/-- An update as `git` writes it to the hook. -/
structure PushedRef where
  oldOid : String
  newOid : String
  refName : String
deriving DecidableEq

namespace PushedRef

variable (u : PushedRef)

def line : List Char := u.oldOid.toList ++ ' ' :: (u.newOid.toList ++ ' ' :: u.refName.toList)

/-- Hexadecimal ids, and a name that `git` accepts. -/
def WellFormed : Prop :=
  isOid u.oldOid = true ∧ isOid u.newOid = true ∧ checkRefnameFormat u.refName.toList = true

def classify (isAncestor : List Char → List Char → Bool) : HookRefUpdate where
  oldOid := u.oldOid
  newOid := u.newOid
  refName := u.refName
  isAncestor := u.oldOid.toList ≠ zeroOid && u.newOid.toList ≠ zeroOid &&
    isAncestor u.oldOid.toList u.newOid.toList

end PushedRef

section Characters

theorem escapeChar_eq {c : Char} (hctl : 32 ≤ c.toNat) (hq : c ≠ '"') (hb : c ≠ '\\') :
    Json.escapeChar c = [c] := by
  rcases Json.escapeChar_cases c with ⟨e, he, rfl, -⟩ | ⟨hlt, -⟩ | ⟨-, -, -, hescape⟩
  · revert hctl hq hb
    revert e
    decide
  · omega
  · exact hescape

theorem escape_eq_self {text : List Char} (h : ∀ c ∈ text, isUuidChar c = true) :
    text.flatMap Json.escapeChar = text := by
  have hplain : text.flatMap Json.escapeChar = text.flatMap fun c ↦ [c] := by
    apply List.flatMap_congr
    intro c hc
    have hchar := h c hc
    have hcontrol : ∀ n < 32, isUuidChar (Char.ofNat n) = false := by decide
    apply escapeChar_eq
    · by_contra hlt
      have hfalse := hcontrol c.toNat (by omega)
      rw [Char.ofNat_toNat, hchar] at hfalse
      cases hfalse
    · rintro rfl
      revert hchar
      decide
    · rintro rfl
      revert hchar
      decide
  rw [hplain, List.flatMap_singleton']

/-- What the two substitutions do is what JSON asks for, but for control characters. -/
theorem substitute_eq {text : List Char} (h : ∀ c ∈ text, 32 ≤ c.toNat) :
    Shell.substitute '"' ['\\', '"'] (Shell.substitute '\\' ['\\', '\\'] text) =
      text.flatMap Json.escapeChar := by
  rw [Shell.substitute, Shell.substitute, List.flatMap_assoc]
  apply List.flatMap_congr
  intro c hc
  by_cases hb : c = '\\'
  · rw [hb]
    decide
  by_cases hq : c = '"'
  · rw [hq]
    decide
  · simp [hb, hq, escapeChar_eq (h c hc) hq hb]

theorem capture_escape {text : List Char} (h : ∀ c ∈ text, 32 ≤ c.toNat) :
    Shell.capture (text.flatMap Json.escapeChar) = text.flatMap Json.escapeChar := by
  apply Shell.capture_eq_self
  intro hlast
  obtain ⟨c, hc, hmem⟩ := List.mem_flatMap.mp (List.mem_of_getLast? hlast)
  have hctl := h c hc
  rcases Json.escapeChar_cases c with ⟨e, he, rfl, hescape⟩ | ⟨hlt, -⟩ | ⟨-, -, -, hescape⟩
  · have hletter : ∀ e ∈ Json.shortEscapes, '\n' ∉ ['\\', e.2] := by decide
    exact hletter e he (hescape ▸ hmem)
  · omega
  · rw [hescape, List.mem_singleton] at hmem
    rw [← hmem] at hctl
    revert hctl
    decide

theorem safe_eq {text : List Char} (h : ∀ c ∈ text, 32 ≤ c.toNat) :
    safe text = text.flatMap Json.escapeChar := by
  rw [safe, substitute_eq h, capture_escape h]

/-- The first control character is lost with the newlines at the end, or it is sent as it is. -/
theorem safe_control {text : List Char} {c : Char} (h : ∀ d ∈ text, 32 ≤ d.toNat)
    (hc : c.toNat < 32) (rest : List Char) : safe (text ++ c :: rest) = safe text ∨
      ∃ rest', safe (text ++ c :: rest) = text.flatMap Json.escapeChar ++ c :: rest' := by
  have hquote : c ≠ '"' := by
    rintro rfl
    revert hc
    decide
  have hslash : c ≠ '\\' := by
    rintro rfl
    revert hc
    decide
  have htail : Shell.substitute '"' ['\\', '"'] (Shell.substitute '\\' ['\\', '\\'] (c :: rest)) =
      c :: Shell.substitute '"' ['\\', '"'] (Shell.substitute '\\' ['\\', '\\'] rest) := by
    simp [Shell.substitute, hquote, hslash]
  have hsplit : safe (text ++ c :: rest) = Shell.capture (text.flatMap Json.escapeChar ++ c ::
      Shell.substitute '"' ['\\', '"'] (Shell.substitute '\\' ['\\', '\\'] rest)) := by
    rw [safe, ← htail, ← substitute_eq h]
    simp [Shell.substitute]
  generalize Shell.substitute '"' ['\\', '"'] (Shell.substitute '\\' ['\\', '\\'] rest) = more
    at hsplit
  rw [Shell.capture_append] at hsplit
  split at hsplit
  · left
    rw [hsplit, safe_eq h, capture_escape h]
  · right
    rename_i hne
    obtain ⟨d, ds, hcapture⟩ := List.exists_cons_of_ne_nil hne
    have hprefix := Shell.capture_prefix (c :: more)
    rw [hcapture] at hprefix hsplit
    obtain ⟨rfl, -⟩ := List.cons_prefix_cons.mp hprefix
    exact ⟨ds, hsplit⟩

end Characters

section Fields

theorem word_of_isOid {ifs : Char → Bool} {oid : String} (h : isOid oid = true)
    (hifs : ∀ c, isHexDigit c = true → ifs c = false) : Shell.Word ifs oid.toList := by
  simp only [isOid, Bool.and_eq_true, beq_iff_eq, List.all_eq_true] at h
  refine ⟨?_, fun c hc ↦ hifs c (h.2 c hc)⟩
  intro hnil
  simp [byteLen, hnil] at h

theorem word_of_check {ifs : Char → Bool} {name : List Char} (h : checkRefnameFormat name = true)
    (hifs : ∀ c, badRefChar c = false → ifs c = false) : Shell.Word ifs name := by
  refine ⟨?_, fun c hc ↦ hifs c (badRefChar_of_check h hc)⟩
  rintro rfl
  revert h
  decide

def HookRefUpdate.hmacLine (r : HookRefUpdate) : List Char :=
  r.refName.toList ++ ' ' :: (r.oldOid.toList ++ ' ' :: (r.newOid.toList ++ ' ' ::
    [if r.isAncestor then '1' else '0']))

def HookRefUpdate.WellFormed (r : HookRefUpdate) : Prop :=
  isOid r.oldOid = true ∧ isOid r.newOid = true ∧ checkRefnameFormat r.refName.toList = true

def HookRefUpdate.entry (r : HookRefUpdate) : List Char :=
  Json.renderObj [Json.renderField "old_oid" (Json.renderStr r.oldOid.toList),
    Json.renderField "new_oid" (Json.renderStr r.newOid.toList),
    Json.renderField "ref_name" (Json.renderStr r.refName.toList),
    Json.renderField "is_ancestor" (if r.isAncestor then "true" else "false").toList]

variable {u : PushedRef} {isAncestor : List Char → List Char → Bool}

theorem isBlank_spec {c : Char} (h : Shell.isBlank c = true) :
    isHexDigit c = false ∧ badRefChar c = true := by
  simp only [Shell.isBlank, Bool.or_eq_true, decide_eq_true_eq] at h
  obtain (rfl | rfl) | rfl := h
  all_goals decide

theorem le_of_badRefChar {c : Char} (h : badRefChar c = false) : 32 ≤ c.toNat := by
  simp only [badRefChar, Bool.or_eq_false_iff, decide_eq_false_iff_not] at h
  omega

theorem isUuidChar_of_isHexDigit {c : Char} (h : isHexDigit c = true) : isUuidChar c = true := by
  rw [isUuidChar, h, Bool.true_or]

theorem escape_oid {oid : String} (h : isOid oid = true) :
    oid.toList.flatMap Json.escapeChar = oid.toList := by
  simp only [isOid, Bool.and_eq_true, List.all_eq_true] at h
  exact escape_eq_self fun c hc ↦ isUuidChar_of_isHexDigit (h.2 c hc)

theorem PushedRef.read_line (h : u.WellFormed) : Shell.read Shell.isBlank 2 (Shell.raw u.line) =
    [u.oldOid.toList, u.newOid.toList, u.refName.toList] := by
  obtain ⟨hold, hnew, hname⟩ := h
  have hhex (c : Char) (hc : isHexDigit c = true) : Shell.isBlank c = false := by
    by_contra hblank
    rw [(isBlank_spec (eq_true_of_ne_false hblank)).1] at hc
    cases hc
  have hblank (c : Char) (hc : badRefChar c = false) : Shell.isBlank c = false := by
    by_contra hblank
    rw [(isBlank_spec (eq_true_of_ne_false hblank)).2] at hc
    cases hc
  rw [line, Shell.read_word (word_of_isOid hold hhex) rfl,
    Shell.read_word (word_of_isOid hnew hhex) rfl, Shell.read_last (word_of_check hname hblank)]

theorem Scan.next_eq (h : u.WellFormed) (s : Scan) : s.next isAncestor u.line =
    ⟨(if s.refs ≠ [] then s.refs ++ [','] else s.refs) ++ (u.classify isAncestor).entry,
      s.hmacFile ++ [(u.classify isAncestor).hmacLine]⟩ := by
  have hread := PushedRef.read_line h
  obtain ⟨hold, hnew, hname⟩ := h
  have hsafe := safe_eq fun c hc ↦ le_of_badRefChar (badRefChar_of_check hname hc)
  rw [next, hread]
  simp only [List.getD_cons_zero, List.getD_cons_succ, hsafe]
  have hkeys : ∀ key ∈ ["old_oid", "new_oid", "ref_name", "is_ancestor"],
      key.toList.flatMap Json.escapeChar = key.toList := by decide
  simp only [HookRefUpdate.entry, HookRefUpdate.hmacLine, Json.renderObj, Json.joinComma,
    Json.renderField, Json.renderStr, PushedRef.classify, escape_oid hold, escape_oid hnew,
    hkeys "old_oid" (by simp), hkeys "new_oid" (by simp), hkeys "ref_name" (by simp),
    hkeys "is_ancestor" (by simp)]
  simp

/-- The loop joins the entries and collects the lines. -/
theorem scan_eq {updates : List PushedRef} (h : ∀ u ∈ updates, u.WellFormed) :
    scan isAncestor (updates.map PushedRef.line) =
      ⟨Json.joinComma ((updates.map (PushedRef.classify · isAncestor)).map HookRefUpdate.entry),
        (updates.map (PushedRef.classify · isAncestor)).map HookRefUpdate.hmacLine⟩ := by
  induction updates using List.reverseRecOn with
  | nil => rfl
  | append_singleton updates u ih =>
    have hinit := ih fun v hv ↦ h v (by simp [hv])
    rw [scan] at hinit
    rw [scan, List.map_append, List.foldl_append, hinit, List.map_singleton, List.foldl_cons,
      List.foldl_nil, Scan.next_eq (h u (by simp))]
    cases updates with
    | nil => rfl
    | cons v updates =>
      have hne (texts : List (List Char)) :
          Json.joinComma ((v.classify isAncestor).entry :: texts) ≠ [] :=
        Json.joinComma_ne_nil (List.cons_ne_nil _ _) _
      simp only [List.map_cons, List.map_append, List.map_nil, if_pos (hne _)]
      rw [Json.joinComma_concat (List.cons_ne_nil _ _), List.append_assoc, List.singleton_append]

theorem notMem_of_isOid {oid : String} (h : isOid oid = true) {c : Char}
    (hc : isHexDigit c = false) : c ∉ oid.toList := by
  intro hmem
  simp only [isOid, Bool.and_eq_true, List.all_eq_true] at h
  rw [h.2 c hmem] at hc
  cases hc

theorem notMem_of_check {name : List Char} (h : checkRefnameFormat name = true) {c : Char}
    (hc : badRefChar c = true) : c ∉ name := by
  intro hmem
  rw [badRefChar_of_check h hmem] at hc
  cases hc

/-- The second reading finds the fields of a line again. -/
theorem printLine_hmacLine {r : HookRefUpdate} (h : r.WellFormed) :
    printLine r.hmacLine = r.text := by
  obtain ⟨hold, hnew, hname⟩ := h
  have hraw : Shell.unescape r.hmacLine = Shell.raw r.hmacLine := by
    apply Shell.unescape_eq_raw
    have hslash : isHexDigit '\\' = false := by decide
    simp only [HookRefUpdate.hmacLine, List.mem_append, List.mem_cons, not_or]
    refine ⟨notMem_of_check hname (by decide), by decide, notMem_of_isOid hold hslash, by decide,
      notMem_of_isOid hnew hslash, by decide, ?_, List.not_mem_nil⟩
    cases r.isAncestor
    · decide
    · decide
  have hhex (c : Char) (hc : isHexDigit c = true) : decide (c = ' ') = false := by
    apply decide_eq_false
    rintro rfl
    cases hc
  have hblank (c : Char) (hc : badRefChar c = false) : decide (c = ' ') = false := by
    apply decide_eq_false
    rintro rfl
    revert hc
    decide
  have hflag : Shell.Word (fun c ↦ decide (c = ' ')) [if r.isAncestor then '1' else '0'] := by
    refine ⟨List.cons_ne_nil _ _, ?_⟩
    cases r.isAncestor
    · simp
    · simp
  rw [printLine, hraw, HookRefUpdate.hmacLine,
    Shell.read_word (word_of_check hname hblank) (by decide),
    Shell.read_word (word_of_isOid hold hhex) (by decide),
    Shell.read_word (word_of_isOid hnew hhex) (by decide), Shell.read_last hflag]
  rfl

theorem sort_hmacLines {rs : List HookRefUpdate}
    (hchars : ∀ r ∈ rs, ∀ c ∈ r.refName.toList, 32 < c.toNat)
    (hnames : (rs.map HookRefUpdate.refName).Nodup) :
    Shell.sort (rs.map HookRefUpdate.hmacLine) = (rs.mergeSort fun a b ↦
      Shell.bytesLe (Utf8.encode a.refName.toList) (Utf8.encode b.refName.toList)).map
        HookRefUpdate.hmacLine := by
  refine (List.map_mergeSort fun a ha b hb ↦ ?_).symm
  by_cases hab : a.refName = b.refName
  · obtain rfl := List.inj_on_of_nodup_map hnames ha hb hab
    have hself (bytes : List UInt8) : Shell.bytesLe bytes bytes = true := by
      simpa using Shell.bytesLe_total bytes bytes
    rw [hself, hself]
  · have hbytes {r : HookRefUpdate} (hr : r ∈ rs) : ∀ b ∈ Utf8.encode r.refName.toList, 32 < b :=
      fun b hb ↦ Utf8.lt_of_mem_encode (by decide) (hchars r hr) hb
    have hne : Utf8.encode a.refName.toList ≠ Utf8.encode b.refName.toList := fun heq ↦
      hab (String.toList_inj.mp (Utf8.encode_injective heq))
    have hspace : String.utf8EncodeChar ' ' = [32] := by decide
    simp only [HookRefUpdate.hmacLine, Utf8.encode_append, Utf8.encode_cons, hspace,
      List.singleton_append]
    exact (Shell.bytesLe_append (hbytes ha) (hbytes hb) hne _ _).symm

theorem newline_notMem_text {r : HookRefUpdate} (h : r.WellFormed) : '\n' ∉ r.text := by
  obtain ⟨hold, hnew, hname⟩ := h
  have hhex : isHexDigit '\n' = false := by decide
  simp only [HookRefUpdate.text, List.mem_append, List.mem_cons, not_or]
  refine ⟨notMem_of_isOid hold hhex, notMem_of_isOid hnew hhex, ?_, by decide,
    notMem_of_check hname (by decide), ?_, List.not_mem_nil⟩
  · intro hmem
    rw [Decimal.toList_toString] at hmem
    have hdigit := List.all_eq_true.mp (Decimal.all_isDigit_toDigits _) _ hmem
    cases hdigit
  · cases r.isAncestor
    · decide
    · decide

theorem hmacRefs_eq {rs : List HookRefUpdate} (h : ∀ r ∈ rs, r.WellFormed)
    (hnames : (rs.map HookRefUpdate.refName).Nodup) :
    hmacRefs (rs.map HookRefUpdate.hmacLine) = (rs.mergeSort fun a b ↦
      Shell.bytesLe (Utf8.encode a.refName.toList) (Utf8.encode b.refName.toList)).flatMap
        HookRefUpdate.text := by
  by_cases hnil : rs = []
  · simp [hnil, hmacRefs]
  have hwide (r : HookRefUpdate) (hr : r ∈ rs) : ∀ c ∈ r.refName.toList, 32 < c.toNat := by
    intro c hc
    obtain ⟨-, -, hname⟩ := h r hr
    have hle := le_of_badRefChar (badRefChar_of_check hname hc)
    have hne : c.toNat ≠ 32 := by
      intro heq
      have hnot : ' ' ∉ r.refName.toList := notMem_of_check hname (by decide)
      apply hnot
      have hspace : c = ' ' := by rw [← Char.ofNat_toNat c, heq]
      exact hspace ▸ hc
    omega
  have hsorted {r : HookRefUpdate} (hr : r ∈ rs.mergeSort fun a b ↦
      Shell.bytesLe (Utf8.encode a.refName.toList) (Utf8.encode b.refName.toList)) : r.WellFormed :=
    h r ((List.mergeSort_perm _ _).mem_iff.mp hr)
  rw [hmacRefs, if_neg (by simpa using hnil), sort_hmacLines hwide hnames, List.flatMap_map,
    List.flatMap_congr fun r hr ↦ printLine_hmacLine (hsorted hr)]
  apply Shell.capture_eq_self
  intro hlast
  obtain ⟨r, hr, hmem⟩ := List.mem_flatMap.mp (List.mem_of_getLast? hlast)
  exact newline_notMem_text (hsorted hr) hmem

end Fields

section Body

/-- The document of an entry. -/
def HookRefUpdate.json (r : HookRefUpdate) : Json :=
  .obj [("old_oid", .str r.oldOid), ("new_oid", .str r.newOid),
    ("ref_name", .str r.refName), ("is_ancestor", .bool r.isAncestor)]

theorem HookRefUpdate.parses_entry (r : HookRefUpdate) : Json.Parses .obj r.json r.entry := by
  have hflag : Json.Parses .obj (.bool r.isAncestor)
      (if r.isAncestor then "true" else "false").toList := by
    have hbool := (Json.Canonical.bool r.isAncestor).parses fun _ _ ↦ rfl
    cases hr : r.isAncestor <;> rw [hr, Json.render] at hbool
    · exact hbool
    · exact hbool
  refine Json.parses_obj (.cons ?_ (.cons ?_ (.cons ?_ (.cons ?_ .nil))))
  · exact ⟨_, rfl, Json.parses_str _⟩
  · exact ⟨_, rfl, Json.parses_str _⟩
  · exact ⟨_, rfl, Json.parses_str _⟩
  · exact ⟨_, rfl, hflag⟩

theorem HookRefUpdate.decode_json (r : HookRefUpdate) : HookRefUpdate.decode r.json = some r := by
  simp [json, Json.noDuplicateField, decode, decodeText, decodeFlag, List.lookup_cons]

theorem decodeUpdates_json (rs : List HookRefUpdate) :
    decodeUpdates (.arr (rs.map HookRefUpdate.json)) = some rs := by
  induction rs with
  | nil => rfl
  | cons r rs ih =>
    rw [decodeUpdates] at ih ⊢
    rw [List.map_cons, List.mapM_cons, HookRefUpdate.decode_json, ih]
    rfl

def HookEnv.request (env : HookEnv) (rs : List HookRefUpdate) (timestamp : UInt64)
    (signature : List Char) : HookCallbackRequest where
  repoId := env.repoId
  repoOwner := env.repoOwner
  communityId := env.communityId
  pusherPubkey := env.pusherPubkey
  refUpdates := rs
  timestamp := timestamp
  signature := String.ofList signature

/-- The strings of a fixed shape, for which the script needs no escapes. -/
structure HookEnv.Fixed (env : HookEnv) : Prop where
  repoOwner : isPubkeyHex env.repoOwner = true
  communityId : (parseUuid env.communityId).isSome = true
  pusherPubkey : isPubkeyHex env.pusherPubkey = true

def HookEnv.Printable (env : HookEnv) : Prop := ∀ c ∈ env.repoId.toList, 32 ≤ c.toNat

instance (env : HookEnv) : Decidable env.Printable :=
  decidable_of_iff (env.repoId.toList.all (32 ≤ ·.toNat) = true) (by simp [HookEnv.Printable])

theorem isUuidChar_of_isLowerHexDigit {c : Char} (h : isLowerHexDigit c = true) :
    isUuidChar c = true := by
  rw [isLowerHexDigit] at h
  rw [isUuidChar, isHexDigit, h, Bool.true_or, Bool.true_or]

theorem escape_pubkey {key : String} (h : isPubkeyHex key = true) :
    key.toList.flatMap Json.escapeChar = key.toList := by
  simp only [isPubkeyHex, Bool.and_eq_true, List.all_eq_true] at h
  exact escape_eq_self fun c hc ↦ isUuidChar_of_isLowerHexDigit (h.2 c hc)

variable {env : HookEnv} {rs : List HookRefUpdate}

theorem body_eq (h : env.Fixed) (hrepoId : env.Printable) {s : Scan}
    (hrefs : s.refs = Json.joinComma (rs.map HookRefUpdate.entry)) (timestamp : ℕ)
    (bytes : List UInt8) :
    env.body s timestamp (encodeBytes bytes) = Json.renderObj
      [Json.renderField "repo_id" (Json.renderStr env.repoId.toList),
        Json.renderField "repo_owner" (Json.renderStr env.repoOwner.toList),
        Json.renderField "community_id" (Json.renderStr env.communityId.toList),
        Json.renderField "pusher_pubkey" (Json.renderStr env.pusherPubkey.toList),
        Json.renderField "ref_updates" (Json.renderArr (rs.map HookRefUpdate.entry)),
        Json.renderField "timestamp" (toString timestamp).toList,
        Json.renderField "signature" (Json.renderStr (encodeBytes bytes))] := by
  obtain ⟨u, hu⟩ := Option.isSome_iff_exists.mp h.communityId
  have hcommunity := escape_eq_self (isUuidChar_of_parseUuid hu)
  have hsignature : (encodeBytes bytes).flatMap Json.escapeChar = encodeBytes bytes :=
    escape_eq_self fun c hc ↦ isUuidChar_of_isLowerHexDigit (isLowerHexDigit_of_mem_encodeBytes hc)
  have hkeys : ∀ key ∈ ["repo_id", "repo_owner", "community_id", "pusher_pubkey", "ref_updates",
      "timestamp", "signature"], key.toList.flatMap Json.escapeChar = key.toList := by decide
  have hfield (key : String) (hkey : key ∈ ["repo_id", "repo_owner", "community_id",
      "pusher_pubkey", "ref_updates", "timestamp", "signature"]) (value : List Char) :
      Json.renderField key value = '"' :: (key.toList ++ '"' :: ':' :: value) := by
    simp [Json.renderField, Json.renderStr, hkeys key hkey]
  rw [hfield "repo_id" (by simp), hfield "repo_owner" (by simp), hfield "community_id" (by simp),
    hfield "pusher_pubkey" (by simp), hfield "ref_updates" (by simp), hfield "timestamp" (by simp),
    hfield "signature" (by simp)]
  delta HookEnv.body
  simp only [hrefs, safe_eq hrepoId, Json.renderObj, Json.renderArr, Json.joinComma,
    Json.renderStr, escape_pubkey h.repoOwner, escape_pubkey h.pusherPubkey, hcommunity, hsignature]
  simp

theorem parses_body (env : HookEnv) (rs : List HookRefUpdate) (timestamp : UInt64)
    (signature : List Char) : Json.Parses .obj
      (.obj [("repo_id", .str env.repoId), ("repo_owner", .str env.repoOwner),
        ("community_id", .str env.communityId), ("pusher_pubkey", .str env.pusherPubkey),
        ("ref_updates", .arr (rs.map HookRefUpdate.json)),
        ("timestamp", .num (toString timestamp.toNat)),
        ("signature", .str (String.ofList signature))])
      (Json.renderObj [Json.renderField "repo_id" (Json.renderStr env.repoId.toList),
        Json.renderField "repo_owner" (Json.renderStr env.repoOwner.toList),
        Json.renderField "community_id" (Json.renderStr env.communityId.toList),
        Json.renderField "pusher_pubkey" (Json.renderStr env.pusherPubkey.toList),
        Json.renderField "ref_updates" (Json.renderArr (rs.map HookRefUpdate.entry)),
        Json.renderField "timestamp" (toString timestamp.toNat).toList,
        Json.renderField "signature" (Json.renderStr signature)]) := by
  have helems := Json.parses_arr (List.forall₂_map_left_iff.mpr (List.forall₂_map_right_iff.mpr
    (List.forall₂_same.mpr fun r (_ : r ∈ rs) ↦ r.parses_entry)))
  have hsignature : Json.Parses .obj (.str (String.ofList signature))
      (Json.renderStr (String.ofList signature).toList) := Json.parses_str _
  rw [String.toList_ofList] at hsignature
  refine Json.parses_obj (.cons ?_ (.cons ?_ (.cons ?_ (.cons ?_ (.cons ?_ (.cons ?_ (.cons ?_
    .nil)))))))
  · exact ⟨_, rfl, Json.parses_str _⟩
  · exact ⟨_, rfl, Json.parses_str _⟩
  · exact ⟨_, rfl, Json.parses_str _⟩
  · exact ⟨_, rfl, Json.parses_str _⟩
  · exact ⟨_, rfl, helems⟩
  · exact ⟨_, rfl, Json.parses_nat _⟩
  · exact ⟨_, rfl, hsignature⟩

theorem fromJson_body (h : env.Fixed) (hrepoId : env.Printable) {s : Scan}
    (hrefs : s.refs = Json.joinComma (rs.map HookRefUpdate.entry)) (timestamp : UInt64)
    (bytes : List UInt8) :
    HookCallbackRequest.fromJson (String.ofList (env.body s timestamp.toNat (encodeBytes bytes))) =
      some (env.request rs timestamp (encodeBytes bytes)) := by
  have hparses := parses_body env rs timestamp (encodeBytes bytes)
  have htext : (String.ofList (env.body s timestamp.toNat (encodeBytes bytes))).toList =
      env.body s timestamp.toNat (encodeBytes bytes) := String.toList_ofList
  rw [← body_eq h hrepoId hrefs, ← htext] at hparses
  have htime : decodeU64 (.num timestamp.toNat.repr) = some timestamp := by
    rw [decodeU64, Nat.toList_repr, Decimal.parseDigits_toDigits, Option.bind_some,
      if_pos timestamp.toNat_lt, UInt64.ofNat_toNat]
  rw [HookCallbackRequest.fromJson, hparses.parseRaw, Option.bind_some]
  simp [Json.noDuplicateField, HookCallbackRequest.decode, decodeText, List.lookup_cons,
    decodeUpdates_json, htime, HookEnv.request]

end Body

section Agreement

variable (hmac : List UInt8 → List UInt8 → List UInt8) (isAncestor : List Char → List Char → Bool)
  (env : HookEnv) (updates : List PushedRef) (timestamp : UInt64)

def SignedAlike : Prop :=
  ∃ sent req, preReceive hmac isAncestor env (updates.map PushedRef.line) timestamp.toNat =
      some sent ∧
    HookCallbackRequest.fromJson (String.ofList sent.body) = some req ∧
    req.refUpdates = updates.map (PushedRef.classify · isAncestor) ∧
    Utf8.encode sent.hmacInput = req.canonicalPayload ∧ req.verifyHmac hmac env.hookSecret = true

variable {hmac isAncestor env updates timestamp}

theorem names_classify (updates : List PushedRef) :
    (updates.map (PushedRef.classify · isAncestor)).map HookRefUpdate.refName =
      updates.map PushedRef.refName := by
  rw [List.map_map]
  rfl

theorem hmacInput_eq (h : ∀ u ∈ updates, u.WellFormed)
    (hnames : (updates.map PushedRef.refName).Nodup) (signature : List Char) :
    env.hmacInput (scan isAncestor (updates.map PushedRef.line)) timestamp.toNat =
      (env.request (updates.map (PushedRef.classify · isAncestor)) timestamp
        signature).payloadText := by
  have hclassified : ∀ r ∈ updates.map (PushedRef.classify · isAncestor), r.WellFormed :=
    List.forall_mem_map.mpr h
  have hrefs := hmacRefs_eq hclassified (by rwa [names_classify])
  simp only [HookEnv.hmacInput, scan_eq h]
  exact congrArg (fun refs ↦ (toString (byteLen env.repoId)).toList ++ ':' ::
    (env.repoId.toList ++ '|' :: (env.repoOwner.toList ++ '|' :: (env.communityId.toList ++ '|' ::
      (env.pusherPubkey.toList ++ '|' :: (refs ++ '|' ::
        (toString timestamp.toNat).toList)))))) hrefs

theorem encodeBytes_ne_nil {bytes : List UInt8} (h : bytes.length = 32) :
    encodeBytes bytes ≠ [] := by
  cases bytes with
  | nil => simp at h
  | cons b bytes => simp [encodeBytes]

theorem preReceive_eq (hlen : ∀ key text, (hmac key text).length = 32) (hset : env.IsSet)
    (stdin : List (List Char)) : preReceive hmac isAncestor env stdin timestamp.toNat =
      some ⟨env.hmacInput (scan isAncestor stdin) timestamp.toNat,
        env.body (scan isAncestor stdin) timestamp.toNat (env.signature hmac
          (env.hmacInput (scan isAncestor stdin) timestamp.toNat))⟩ := by
  rw [preReceive, if_pos hset]
  exact if_neg (encodeBytes_ne_nil (hlen _ _))

theorem signedAlike_of_printable (hlen : ∀ key text, (hmac key text).length = 32)
    (hset : env.IsSet) (henv : env.Fixed) (hrepoId : env.Printable)
    (h : ∀ u ∈ updates, u.WellFormed) (hnames : (updates.map PushedRef.refName).Nodup) :
    SignedAlike hmac isAncestor env updates timestamp := by
  have hrefs : (scan isAncestor (updates.map PushedRef.line)).refs = _ :=
    congrArg Scan.refs (scan_eq h)
  have hread := fromJson_body henv hrepoId hrefs timestamp
  refine ⟨_, _, preReceive_eq hlen hset _, hread _, rfl, ?_, ?_⟩
  · rw [hmacInput_eq h hnames []]
    rfl
  · simp only [HookCallbackRequest.verifyHmac, HookEnv.request, String.toList_ofList,
      decodeBytes_encodeBytes, beq_iff_eq]
    rw [hmacInput_eq h hnames []]
    rfl

theorem body_control {text rest : List Char} {c : Char} (hc : c.toNat < 32)
    (hsafe : safe env.repoId.toList = text.flatMap Json.escapeChar ++ c :: rest) (s : Scan)
    (timestamp : ℕ) (signature : List Char) :
    HookCallbackRequest.fromJson (String.ofList (env.body s timestamp signature)) = none := by
  have hkey : "repo_id".toList.flatMap Json.escapeChar = "repo_id".toList := by decide
  obtain ⟨more, hmore⟩ : ∃ more, env.body s timestamp signature =
      "\x7b\"repo_id\":\"".toList ++ (safe env.repoId.toList ++ more) := by
    apply Exists.intro
    delta HookEnv.body
    simp only [List.append_assoc]
    rfl
  have hbody : env.body s timestamp signature = '\x7b' :: Json.renderField "repo_id"
      ('"' :: (text.flatMap Json.escapeChar ++ c :: (rest ++ more))) := by
    rw [hmore, hsafe, Json.renderField, Json.renderStr, hkey]
    simp
  rw [HookCallbackRequest.fromJson, Json.parseRaw, Json.parseWith, String.toList_ofList, hbody,
    Json.parseValue_control "repo_id" hc]
  rfl

/-- With a control character in the repo id the payloads differ, or the body is not read. -/
theorem printable_of_signedAlike (hlen : ∀ key text, (hmac key text).length = 32)
    (hset : env.IsSet) (henv : env.Fixed) (h : ∀ u ∈ updates, u.WellFormed)
    (hnames : (updates.map PushedRef.refName).Nodup)
    (halike : SignedAlike hmac isAncestor env updates timestamp) : env.Printable := by
  obtain ⟨sent, req, hsent, hread, -, hpayload, -⟩ := halike
  by_contra hctl
  obtain ⟨text, c, rest, hrepoId, htext, hc⟩ : ∃ text c rest,
      env.repoId.toList = text ++ c :: rest ∧ (∀ d ∈ text, 32 ≤ d.toNat) ∧ c.toNat < 32 := by
    have hsome : (env.repoId.toList.find? fun c ↦ decide (c.toNat < 32)).isSome = true := by
      simpa [HookEnv.Printable] using hctl
    obtain ⟨c, hfind⟩ := Option.isSome_iff_exists.mp hsome
    obtain ⟨hc, text, rest, hsplit, htext⟩ := List.find?_eq_some_iff_append.mp hfind
    exact ⟨text, c, rest, hsplit, fun d hd ↦ by simpa using htext d hd, of_decide_eq_true hc⟩
  rw [preReceive_eq hlen hset] at hsent
  obtain rfl := (Option.some.inj hsent).symm
  obtain hlost | ⟨rest', hkept⟩ := safe_control htext hc rest
  · have hplain : { env with repoId := String.ofList text }.Fixed :=
      ⟨henv.repoOwner, henv.communityId, henv.pusherPubkey⟩
    have hprintable : { env with repoId := String.ofList text }.Printable := by
      rw [HookEnv.Printable, String.toList_ofList]
      exact htext
    have hbody (s : Scan) (timestamp : ℕ) (signature : List Char) :
        env.body s timestamp signature =
          { env with repoId := String.ofList text }.body s timestamp signature := by
      delta HookEnv.body
      simp only [hrepoId, hlost, String.toList_ofList]
    have hrefs : (scan isAncestor (updates.map PushedRef.line)).refs = _ :=
      congrArg Scan.refs (scan_eq h)
    rw [hbody, HookEnv.signature, fromJson_body hplain hprintable hrefs] at hread
    obtain rfl := (Option.some.inj hread).symm
    have hlonger := Utf8.encode_injective hpayload
    rw [hmacInput_eq h hnames []] at hlonger
    have hsame : env.repoId = String.ofList text := (length_prefixed_inj hlonger).1
    have hlist := congrArg String.toList hsame
    rw [hrepoId, String.toList_ofList] at hlist
    simp at hlist
  · rw [← hrepoId] at hkept
    rw [body_control hc hkept] at hread
    cases hread

/-- Another order of the updates does not change what is signed. -/
theorem hmacInput_perm {updates' : List PushedRef} (hperm : updates'.Perm updates)
    (h : ∀ u ∈ updates, u.WellFormed) (hnames : (updates.map PushedRef.refName).Nodup) :
    env.hmacInput (scan isAncestor (updates'.map PushedRef.line)) timestamp.toNat =
      env.hmacInput (scan isAncestor (updates.map PushedRef.line)) timestamp.toNat := by
  have hnames' := (hperm.map PushedRef.refName).nodup_iff.mpr hnames
  rw [hmacInput_eq h hnames [], hmacInput_eq (fun u hu ↦ h u (hperm.mem_iff.mp hu)) hnames' []]
  apply Utf8.encode_injective
  exact (env.request (updates.map (PushedRef.classify · isAncestor)) timestamp
    []).canonicalPayload_perm (hperm.map _) ((names_classify updates).symm ▸ hnames)

/-- The hook signs the payload that the relay computes from the body, in any order of the updates,
just when the repo id has no control character; and two requests that the relay accepts have one
payload only for one push. -/
theorem hook_signs_canonical_payload (hmac : List UInt8 → List UInt8 → List UInt8)
    (isAncestor : List Char → List Char → Bool)
    (hlen : ∀ key text, (hmac key text).length = 32) :
    (∀ env updates timestamp, HookEnv.IsSet env → env.Fixed →
      (∀ u ∈ updates, PushedRef.WellFormed u) → (updates.map PushedRef.refName).Nodup →
      (SignedAlike hmac isAncestor env updates timestamp ↔ env.Printable) ∧
      ∀ updates' : List PushedRef, updates'.Perm updates →
        env.hmacInput (scan isAncestor (updates'.map PushedRef.line)) timestamp.toNat =
          env.hmacInput (scan isAncestor (updates.map PushedRef.line)) timestamp.toNat) ∧
    ∀ req req' community community', HookCallbackRequest.validate req = .ok community →
      HookCallbackRequest.validate req' = .ok community' →
      (req.canonicalPayload = req'.canonicalPayload → req.SamePush req') ∧
      ∀ secret, req.verifyHmac hmac secret = true → req'.verifyHmac hmac secret = true →
        req.signature = req'.signature →
        (req.computeHmac hmac secret = req'.computeHmac hmac secret →
          req.canonicalPayload = req'.canonicalPayload) → req.SamePush req' := by
  refine ⟨?_, ?_⟩
  · intro env updates timestamp hset henv h hnames
    refine ⟨⟨printable_of_signedAlike hlen hset henv h hnames, fun hrepoId ↦ ?_⟩, ?_⟩
    · exact signedAlike_of_printable hlen hset henv hrepoId h hnames
    · exact fun _ hperm ↦ hmacInput_perm hperm h hnames
  · intro req req' community community' hvalid hvalid'
    refine ⟨HookCallbackRequest.canonicalPayload_inj hvalid hvalid', ?_⟩
    intro secret hverify hverify' hsig hcollision
    exact HookCallbackRequest.samePush_of_signature hvalid hvalid' hverify hverify' hsig hcollision

def newBranch : PushedRef where
  oldOid := "0000000000000000000000000000000000000000"
  newOid := "1111111111111111111111111111111111111111"
  refName := "refs/heads/main"

theorem newBranch_wellFormed : newBranch.WellFormed := by
  refine ⟨by decide, by decide, by decide⟩

def envOf (repoId : String) : HookEnv where
  repoId := repoId
  repoOwner := "000000000000000000000000000000000000000000000000000000000000000a"
  communityId := "00000000-0000-0000-0000-000000000001"
  pusherPubkey := "000000000000000000000000000000000000000000000000000000000000000b"
  hookUrl := "http://127.0.0.1:3000/internal/git/policy"
  hookSecret := "secret"

theorem envOf_fixed (repoId : String) : (envOf repoId).Fixed :=
  ⟨show isPubkeyHex (envOf "").repoOwner = true by decide,
    show (parseUuid (envOf "").communityId).isSome = true by decide,
    show isPubkeyHex (envOf "").pusherPubkey = true by decide⟩

theorem hook_signs_canonical_payload_new_branch :
    SignedAlike Sha256.hmac (fun _ _ ↦ false) (envOf "a|\"b\\") [newBranch] 1700000000 := by
  refine ((hook_signs_canonical_payload Sha256.hmac (fun _ _ ↦ false) Sha256.length_hmac).1
    (envOf "a|\"b\\") [newBranch] 1700000000 (by decide) (envOf_fixed _) ?_ (by simp)).1.mpr
    (by decide)
  exact List.forall_mem_singleton.mpr newBranch_wellFormed

/-- A newline at the end of a repo id is signed and not sent. -/
theorem hook_signs_newline_unsent : (envOf "a\n").IsSet ∧ (envOf "a\n").Fixed ∧
    byteLen (envOf "a\n").repoId ≤ 64 ∧ newBranch.WellFormed ∧
    ¬SignedAlike Sha256.hmac (fun _ _ ↦ false) (envOf "a\n") [newBranch] 1700000000 := by
  refine ⟨by decide, envOf_fixed _, by decide, newBranch_wellFormed, fun halike ↦ ?_⟩
  have hprintable := printable_of_signedAlike Sha256.length_hmac (by decide) (envOf_fixed _)
    (List.forall_mem_singleton.mpr newBranch_wellFormed) (by simp) halike
  revert hprintable
  decide

end Agreement

end Buzz.Git
