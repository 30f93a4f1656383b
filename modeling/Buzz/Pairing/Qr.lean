import Buzz.Lib.Decimal
import Buzz.Lib.PercentEncoding
import Buzz.Lib.Texts
import Buzz.Pairing.Session

namespace Buzz.Pairing

open Buzz.Lib Buzz.Nostr

/-- What is read off a parsed `Url`. -/
structure Url where
  scheme : String
  host : Option String

/-- The parsers of the nostr and url crates, and the quoting of `{:?}` in the texts of errors. -/
structure Readers where
  publicKeyFromHex : String → Except String PublicKey
  parseUrl : String → Except String Url
  debug : String → String

def urlEncode (s : String) : List Char := Percent.encode s.toList

def urlDecode (value : List Char) : String :=
  String.ofList (Percent.fromUtf8Lossy (Percent.decode (Utf8.encode value)))

def encodeQr (payload : QrPayload) : String :=
  String.ofList ("nostrpair://".toList ++ (hexEncode payload.sourcePubkey).toList ++
    "?secret=".toList ++ (hexEncode payload.sessionSecret).toList ++
    (payload.relays.flatMap fun relay ↦ "&relay=".toList ++ urlEncode relay) ++ "&v=1".toList)

/-- The variables of the loop over the parameters. -/
structure Params where
  secretHex : Option (List Char)
  relays : List String
  version : Option UInt32

def Params.take (p : Params) (key value : List Char) : Params :=
  if key = "secret".toList then { p with secretHex := some value }
  else if key = "relay".toList then { p with relays := p.relays ++ [urlDecode value] }
  else if key = "v".toList then { p with version := Decimal.parseU32 value }
  else p

def readParams (query : List Char) : Params :=
  (query.splitOn '&').foldl (fun p pair ↦
    match splitOnce '=' pair with
    | some (key, value) => p.take key value
    | none => p) ⟨none, [], none⟩

def isHex64 (text : List Char) : Bool := Utf8.len text == 64 && text.all Hex.isLowerHexDigit

def checkRelay (R : Readers) (relay : String) : Except PairingError Unit := do
  let parsed ← (R.parseUrl relay).mapError fun e ↦
    .invalidQr ("invalid relay URL " ++ R.debug relay ++ ": " ++ e)
  require (parsed.scheme = "wss" ∨ parsed.scheme = "ws")
    (.invalidQr ("relay URL must use wss:// or ws:// scheme, got " ++ R.debug parsed.scheme))
  require (parsed.host ≠ none) (.invalidQr ("relay URL has no host: " ++ R.debug relay))

def stripScheme (uri : List Char) : Option (List Char) :=
  if "nostrpair://".toList.isPrefixOf uri then some (uri.drop "nostrpair://".toList.length)
  else none

def decodeQr (R : Readers) (uri : String) : Except PairingError QrPayload := do
  require (uri.utf8ByteSize ≤ 2048) (.invalidQr
    ("URI exceeds 2048-character limit (" ++ toString uri.utf8ByteSize ++ " chars)"))
  let rest ← okOr (stripScheme uri.toList) (.invalidQr "URI must start with nostrpair://")
  let parts ← okOr (splitOnce '?' rest)
    (.invalidQr "missing query string (expected ?secret=…&relay=…)")
  require (isHex64 parts.1) (.invalidQr
    ("pubkey must be 64 lowercase hex chars, got " ++ R.debug (String.ofList parts.1)))
  let sourcePubkey ← (R.publicKeyFromHex (String.ofList parts.1)).mapError fun e ↦
    .invalidQr ("invalid pubkey: " ++ e)
  let params := readParams parts.2
  let version := params.version.getD 1
  require (version = 1) (.invalidQr
    ("unsupported protocol version " ++ toString version ++ ", expected 1"))
  let secretStr ← okOr params.secretHex (.invalidQr "missing 'secret' query parameter")
  require (isHex64 secretStr) (.invalidQr
    ("secret must be 64 lowercase hex chars, got " ++ R.debug (String.ofList secretStr)))
  let sessionSecret ← okOr (hexDecode (String.ofList secretStr))
    (.invalidQr "secret must be exactly 32 bytes")
  require (sessionSecret ≠ 0) (.invalidQr "session_secret must not be all zeros")
  require (params.relays ≠ []) (.invalidQr "at least one 'relay' query parameter is required")
  params.relays.forM (checkRelay R)
  return ⟨version.toNat, sourcePubkey, sessionSecret, params.relays⟩

section Parameters

/-- The parameters of a query, those that have a `=`. -/
def pairs (query : List Char) : List (List Char × List Char) :=
  (query.splitOn '&').filterMap (splitOnce '=')

def valuesIn (name : String) (l : List (List Char × List Char)) : List (List Char) :=
  l.filterMap fun p ↦ if p.1 = name.toList then some p.2 else none

def values (name : String) (query : List Char) : List (List Char) := valuesIn name (pairs query)

theorem valuesIn_concat (name : String) (l : List (List Char × List Char)) (key value : List Char) :
    valuesIn name (l ++ [(key, value)]) =
      if key = name.toList then valuesIn name l ++ [value] else valuesIn name l := by
  by_cases hkey : key = name.toList
  · simp [valuesIn, hkey]
  · simp [valuesIn, hkey]

theorem foldl_take (l : List (List Char × List Char)) :
    l.foldl (fun p pair ↦ p.take pair.1 pair.2) ⟨none, [], none⟩ =
      Params.mk (valuesIn "secret" l).getLast? ((valuesIn "relay" l).map urlDecode)
        ((valuesIn "v" l).getLast?.bind Decimal.parseU32) := by
  induction l using List.reverseRecOn with
  | nil => rfl
  | append_singleton l pair ih =>
    obtain ⟨key, value⟩ := pair
    have hsecretRelay : "secret".toList ≠ "relay".toList := by decide
    have hsecretV : "secret".toList ≠ "v".toList := by decide
    have hrelayV : "relay".toList ≠ "v".toList := by decide
    rw [List.foldl_concat, ih, Params.take, valuesIn_concat, valuesIn_concat, valuesIn_concat]
    by_cases hsecret : key = "secret".toList
    · rw [if_pos hsecret, if_pos hsecret, if_neg (hsecret ▸ hsecretRelay),
        if_neg (hsecret ▸ hsecretV), List.getLast?_concat]
    rw [if_neg hsecret, if_neg hsecret]
    by_cases hrelay : key = "relay".toList
    · rw [if_pos hrelay, if_pos hrelay, if_neg (hrelay ▸ hrelayV), List.map_append]
      rfl
    rw [if_neg hrelay, if_neg hrelay]
    by_cases hv : key = "v".toList
    · rw [if_pos hv, if_pos hv, List.getLast?_concat]
      rfl
    · rw [if_neg hv, if_neg hv]

theorem readParams_eq (query : List Char) :
    readParams query = ⟨(values "secret" query).getLast?, (values "relay" query).map urlDecode,
      (values "v" query).getLast?.bind Decimal.parseU32⟩ := by
  rw [values, values, values, ← foldl_take, pairs, List.foldl_filterMap, readParams]
  congr
  funext p pair
  cases splitOnce '=' pair <;> rfl

end Parameters

def queryOf (uri : String) : List Char :=
  (((stripScheme uri.toList).bind (splitOnce '?')).map Prod.snd).getD []

def versions (uri : String) : List (List Char) := values "v" (queryOf uri)

def GoodRelay (R : Readers) (relay : String) : Prop :=
  ∃ parsed, R.parseUrl relay = .ok parsed ∧ (parsed.scheme = "wss" ∨ parsed.scheme = "ws") ∧
    parsed.host ≠ none

theorem checkRelay_eq_ok {R : Readers} {relay : String} :
    checkRelay R relay = .ok () ↔ GoodRelay R relay := by
  simp only [checkRelay, bind_eq_ok, mapError_eq_ok, require_eq_ok, GoodRelay]
  refine exists_congr fun parsed ↦ and_congr_right fun _ ↦ ?_
  exact ⟨fun ⟨_, hscheme, hhost⟩ ↦ ⟨hscheme, hhost⟩, fun ⟨hscheme, hhost⟩ ↦ ⟨(), hscheme, hhost⟩⟩

def Says (R : Readers) (uri : String) (p : QrPayload) : Prop :=
  uri.utf8ByteSize ≤ 2048 ∧ ∃ pubkeyHex query secret,
    stripScheme uri.toList = some (pubkeyHex ++ '?' :: query) ∧ '?' ∉ pubkeyHex ∧
    isHex64 pubkeyHex = true ∧
    R.publicKeyFromHex (String.ofList pubkeyHex) = .ok p.sourcePubkey ∧
    (values "secret" query).getLast? = some secret ∧ isHex64 secret = true ∧
    hexDecode (String.ofList secret) = some p.sessionSecret ∧ p.sessionSecret ≠ 0 ∧
    p.relays = (values "relay" query).map urlDecode ∧ p.relays ≠ [] ∧
    ∀ relay ∈ p.relays, GoodRelay R relay

theorem queryOf_eq {uri : String} {pubkeyHex query : List Char}
    (huri : stripScheme uri.toList = some (pubkeyHex ++ '?' :: query)) (hkey : '?' ∉ pubkeyHex) :
    queryOf uri = query := by
  rw [queryOf, huri, Option.bind_some, splitOnce_append hkey]
  rfl

theorem decodeQr_eq_ok_iff {R : Readers} {uri : String} {p : QrPayload} :
    decodeQr R uri = .ok p ↔ Says R uri p ∧ p.version = 1 ∧
      ((versions uri).getLast?.bind Decimal.parseU32).getD 1 = 1 := by
  simp only [decodeQr, bind_eq_ok, okOr_eq_ok, mapError_eq_ok, require_eq_ok, readParams_eq,
    forM_eq_ok, checkRelay_eq_ok]
  constructor
  · rintro ⟨-, hsize, rest, hrest, ⟨pubkeyHex, query⟩, hsplit, -, hhex, sourcePubkey, hpubkey, -,
      hversion, secret, hsecret, -, hsecretHex, sessionSecret, hdecode, -, hzero, -, hrelays, -,
      hgood, hp⟩
    obtain ⟨hmark, rfl⟩ := splitOnce_eq_some.mp hsplit
    cases hp
    dsimp only at hhex hpubkey hversion hsecret hrelays hgood ⊢
    refine ⟨⟨hsize, pubkeyHex, query, secret, hrest, hmark, hhex, hpubkey, hsecret, hsecretHex,
      hdecode, hzero, rfl, hrelays, hgood⟩, ?_, ?_⟩
    · rw [hversion]
      rfl
    · rwa [versions, queryOf_eq hrest hmark]
  · rintro ⟨⟨hsize, pubkeyHex, query, secret, hrest, hmark, hhex, hpubkey, hsecret, hsecretHex,
      hdecode, hzero, hrelays, hne, hgood⟩, hone, hversion⟩
    rw [versions, queryOf_eq hrest hmark] at hversion
    obtain ⟨version, sourcePubkey, sessionSecret, relays⟩ := p
    dsimp only at hpubkey hdecode hzero hrelays hne hgood hone
    subst hrelays hone
    refine ⟨(), hsize, _, hrest, (pubkeyHex, query), splitOnce_append hmark query, (), hhex,
      sourcePubkey, hpubkey, (), hversion, secret, hsecret, (), hsecretHex, sessionSecret, hdecode,
      (), hzero, (), hne, (), hgood, ?_⟩
    rw [hversion]
    rfl

def DeclaresOne (uri : String) : Prop := ∀ v ∈ versions uri, Decimal.parseU32 v = some 1

def DeclaresOther (uri : String) : Prop :=
  ∃ v ∈ (versions uri).getLast?, ∃ n, Decimal.parseU32 v = some n ∧ n ≠ 1

/-- A well-formed URI is refused just when its last version is a number other than 1. -/
theorem succeeds_decodeQr {R : Readers} {uri : String} :
    Succeeds (decodeQr R uri) ↔ (∃ p, Says R uri p) ∧ ¬DeclaresOther uri := by
  have hversion : ((versions uri).getLast?.bind Decimal.parseU32).getD 1 = 1 ↔
      ¬DeclaresOther uri := by
    rw [DeclaresOther]
    cases (versions uri).getLast? with
    | none => simp
    | some v => cases hv : Decimal.parseU32 v <;> simp [hv]
  simp only [Succeeds, decodeQr_eq_ok_iff, hversion]
  constructor
  · rintro ⟨p, hp, -, hother⟩
    exact ⟨⟨p, hp⟩, hother⟩
  · rintro ⟨⟨p, hp⟩, hother⟩
    exact ⟨{ p with version := 1 }, hp, rfl, hother⟩

theorem version_checked_iff {R : Readers} {uri : String} :
    (Succeeds (decodeQr R uri) → DeclaresOne uri) ↔
      DeclaresOne uri ∨ DeclaresOther uri ∨ ¬∃ p, Says R uri p := by
  rw [succeeds_decodeQr]
  tauto

section Encoding

theorem isHex64_hexEncode (b : Bytes32) : isHex64 (hexEncode b).toList = true := by
  have hdigits : ∀ c ∈ (hexEncode b).toList, Hex.isLowerHexDigit c = true := by
    rw [hexEncode, String.toList_ofList]
    exact fun c hc ↦ Hex.isLowerHexDigit_of_mem_hexDigits hc
  have hlen : (hexEncode b).toList.length = 64 := by simp [hexEncode]
  have hutf8 : Utf8.len (hexEncode b).toList = (hexEncode b).toList.length := by
    generalize (hexEncode b).toList = cs at hdigits
    induction cs with
    | nil => rfl
    | cons c cs ih =>
      obtain ⟨hc, hcs⟩ := List.forall_mem_cons.mp hdigits
      obtain ⟨n, hn, -, rfl⟩ := Hex.digitValue_of_isLowerHexDigit hc
      have hsize : (Nat.digitChar n).utf8Size = 1 := by interval_cases n <;> rfl
      rw [Utf8.len_cons, ih hcs, hsize, List.length_cons, add_comm]
  simp only [isHex64, hutf8, hlen, Bool.and_eq_true, List.all_eq_true, beq_self_eq_true, true_and]
  exact hdigits

theorem not_mem_hexEncode {b : Bytes32} {c : Char} (h : Hex.isLowerHexDigit c = false) :
    c ∉ (hexEncode b).toList := by
  rw [hexEncode, String.toList_ofList]
  intro hc
  rw [Hex.isLowerHexDigit_of_mem_hexDigits hc] at h
  cases h

theorem not_mem_urlEncode {s : String} {c : Char} (h : c.isAlphanum = false) (hc : c ≠ '%') :
    c ∉ urlEncode s := by
  intro hmem
  obtain halphanum | hpercent := Percent.mem_encode hmem
  · rw [halphanum] at h
    cases h
  · exact hc hpercent

theorem urlDecode_urlEncode (s : String) : urlDecode (urlEncode s) = s := by
  rw [urlDecode, urlEncode, Percent.fromUtf8Lossy_decode_encode, String.ofList_toList]

def paramText (pair : List Char × List Char) : List Char := pair.1 ++ '=' :: pair.2

theorem pairs_paramText {pair : List Char × List Char} {l : List (List Char × List Char)}
    (h : ∀ q ∈ pair :: l, '=' ∉ q.1 ∧ '&' ∉ q.1 ∧ '&' ∉ q.2) :
    pairs (paramText pair ++ (l.map paramText).flatMap ('&' :: ·)) = pair :: l := by
  have hamp : ∀ q ∈ pair :: l, '&' ∉ paramText q := by
    intro q hq
    obtain ⟨-, hkey, hvalue⟩ := h q hq
    simp [paramText, hkey, hvalue]
  obtain ⟨hpair, hl⟩ := List.forall_mem_cons.mp hamp
  rw [pairs, splitOn_append_flatMap hpair (List.forall_mem_map.mpr hl), ← List.map_cons,
    List.filterMap_map]
  have hsplit : ∀ q ∈ pair :: l, (splitOnce '=' ∘ paramText) q = some q := fun q hq ↦
    splitOnce_append (h q hq).1 q.2
  rw [List.filterMap_congr hsplit, List.filterMap_some]

/-- The parameters behind the secret. -/
def restParams (p : QrPayload) (version : List Char) : List (List Char × List Char) :=
  (p.relays.map fun relay ↦ ("relay".toList, urlEncode relay)) ++ [("v".toList, version)]

def queryText (p : QrPayload) (version : List Char) : List Char :=
  paramText ("secret".toList, (hexEncode p.sessionSecret).toList) ++
    ((restParams p version).map paramText).flatMap ('&' :: ·)

def uriOf (p : QrPayload) (version : List Char) : String :=
  String.ofList ("nostrpair://".toList ++ ((hexEncode p.sourcePubkey).toList ++ '?' ::
    queryText p version))

theorem encodeQr_eq_uriOf (p : QrPayload) : encodeQr p = uriOf p ['1'] := by
  have hsecret : "?secret=".toList = '?' :: ("secret".toList ++ ['=']) := by decide
  have hrelay : "&relay=".toList = '&' :: ("relay".toList ++ ['=']) := by decide
  have hversion : "&v=1".toList = '&' :: ("v".toList ++ '=' :: ['1']) := by decide
  unfold encodeQr uriOf queryText
  simp only [hsecret, hrelay, hversion, restParams, paramText, List.map_append, List.map_map,
    List.flatMap_append, List.flatMap_map, List.map_cons, List.map_nil, List.flatMap_cons,
    List.flatMap_nil, List.append_assoc, List.cons_append, List.nil_append, List.append_nil,
    Function.comp_def]

variable {R : Readers} {p : QrPayload} {version : List Char}

theorem stripScheme_append (rest : List Char) :
    stripScheme ("nostrpair://".toList ++ rest) = some rest := by
  generalize hscheme : "nostrpair://".toList = scheme
  rw [stripScheme, hscheme, if_pos (List.isPrefixOf_iff_prefix.mpr (List.prefix_append _ _)),
    List.drop_left]

theorem stripScheme_uriOf : stripScheme (uriOf p version).toList =
    some ((hexEncode p.sourcePubkey).toList ++ '?' :: queryText p version) :=
  (congrArg stripScheme String.toList_ofList).trans (stripScheme_append _)

theorem pairs_queryText (hversion : '&' ∉ version) : pairs (queryText p version) =
    ("secret".toList, (hexEncode p.sessionSecret).toList) :: restParams p version := by
  have hsecret : '=' ∉ "secret".toList ∧ '&' ∉ "secret".toList := by decide
  have hrelay : '=' ∉ "relay".toList ∧ '&' ∉ "relay".toList := by decide
  have hv : '=' ∉ "v".toList ∧ '&' ∉ "v".toList := by decide
  have hhex : '&' ∉ (hexEncode p.sessionSecret).toList := not_mem_hexEncode (by decide)
  have hurl (relay : String) : '&' ∉ urlEncode relay := not_mem_urlEncode (by decide) (by decide)
  apply pairs_paramText
  intro q hq
  simp only [restParams, List.mem_cons, List.mem_append, List.mem_map, List.not_mem_nil,
    or_false] at hq
  rcases hq with rfl | ⟨relay, -, rfl⟩ | rfl
  · dsimp only
    exact ⟨hsecret.1, hsecret.2, hhex⟩
  · exact ⟨hrelay.1, hrelay.2, hurl relay⟩
  · exact ⟨hv.1, hv.2, hversion⟩

theorem valuesIn_append (name : String) (l l' : List (List Char × List Char)) :
    valuesIn name (l ++ l') = valuesIn name l ++ valuesIn name l' := List.filterMap_append

theorem valuesIn_map {α : Type} (name : String) (key : List Char) (f : α → List Char) (l : List α) :
    valuesIn name (l.map fun a ↦ (key, f a)) = if key = name.toList then l.map f else [] := by
  by_cases hkey : key = name.toList
  · simp [valuesIn, hkey]
  · simp [valuesIn, hkey]

theorem values_queryText (hversion : '&' ∉ version) :
    values "secret" (queryText p version) = [(hexEncode p.sessionSecret).toList] ∧
      values "relay" (queryText p version) = p.relays.map urlEncode ∧
      values "v" (queryText p version) = [version] := by
  have hsecretRelay : "secret".toList ≠ "relay".toList := by decide
  have hsecretV : "secret".toList ≠ "v".toList := by decide
  have hrelayV : "relay".toList ≠ "v".toList := by decide
  have hall (name : String) : values name (queryText p version) =
      (if "secret".toList = name.toList then [(hexEncode p.sessionSecret).toList] else []) ++
        ((if "relay".toList = name.toList then p.relays.map urlEncode else []) ++
          if "v".toList = name.toList then [version] else []) := by
    rw [values, pairs_queryText hversion, restParams, ← List.singleton_append, valuesIn_append,
      valuesIn_append, valuesIn_map]
    exact congrArg₂ _ (valuesIn_concat name [] _ _) (congrArg₂ _ rfl (valuesIn_concat name [] _ _))
  refine ⟨?_, ?_, ?_⟩
  · rw [hall, if_pos rfl, if_neg hsecretRelay.symm, if_neg hsecretV.symm]
    rfl
  · rw [hall, if_neg hsecretRelay, if_pos rfl, if_neg hrelayV.symm, List.append_nil]
    rfl
  · rw [hall, if_neg hsecretV, if_neg hrelayV, if_pos rfl]
    rfl

structure QrPayload.Valid (R : Readers) (p : QrPayload) : Prop where
  version : p.version = 1
  key : R.publicKeyFromHex (hexEncode p.sourcePubkey) = .ok p.sourcePubkey
  secret : p.sessionSecret ≠ 0
  relays : p.relays ≠ []
  good : ∀ relay ∈ p.relays, GoodRelay R relay

theorem says_uriOf (h : p.Valid R) (hversion : '&' ∉ version)
    (hsize : (uriOf p version).utf8ByteSize ≤ 2048) : Says R (uriOf p version) p := by
  refine ⟨hsize, (hexEncode p.sourcePubkey).toList, queryText p version,
    (hexEncode p.sessionSecret).toList, stripScheme_uriOf, not_mem_hexEncode (by decide),
    isHex64_hexEncode _, ?_, ?_, isHex64_hexEncode _, ?_, h.secret, ?_, h.relays, h.good⟩
  · rw [String.ofList_toList, h.key]
  · rw [(values_queryText hversion).1]
    rfl
  · rw [String.ofList_toList, hexDecode_hexEncode]
  · rw [(values_queryText hversion).2.1, List.map_map]
    simp [Function.comp_def, urlDecode_urlEncode]

theorem versions_uriOf (hversion : '&' ∉ version) : versions (uriOf p version) = [version] := by
  rw [versions, queryOf_eq stripScheme_uriOf (not_mem_hexEncode (by decide)),
    (values_queryText hversion).2.2]

theorem decodeQr_uriOf (h : p.Valid R) (hversion : '&' ∉ version)
    (hsize : (uriOf p version).utf8ByteSize ≤ 2048)
    (hone : (Decimal.parseU32 version).getD 1 = 1) : decodeQr R (uriOf p version) = .ok p := by
  rw [decodeQr_eq_ok_iff]
  refine ⟨says_uriOf h hversion hsize, h.version, ?_⟩
  rw [versions_uriOf hversion]
  exact hone

theorem decodeQr_encodeQr (h : p.Valid R) (hsize : (encodeQr p).utf8ByteSize ≤ 2048) :
    decodeQr R (encodeQr p) = .ok p := by
  rw [encodeQr_eq_uriOf] at hsize ⊢
  exact decodeQr_uriOf h (by decide) hsize (by decide)

/-- A version that is no number of 32 bits is taken for 1. -/
theorem decodeQr_of_parseU32_eq_none (h : p.Valid R) (hversion : '&' ∉ version)
    (hsize : (uriOf p version).utf8ByteSize ≤ 2048) (hnone : Decimal.parseU32 version = none) :
    decodeQr R (uriOf p version) = .ok p ∧ ¬DeclaresOne (uriOf p version) := by
  refine ⟨decodeQr_uriOf h hversion hsize (by rw [hnone]; rfl), fun hall ↦ ?_⟩
  rw [DeclaresOne, versions_uriOf hversion] at hall
  have hsome := hall version (List.mem_singleton_self version)
  rw [hnone] at hsome
  cases hsome

end Encoding

/-- Every payload comes back from its URI, and no other version passes for 1 but in a well-formed
URI whose last `v` is no number, or is 1 behind another. -/
theorem qr_round_trip_version_iff (R : Readers) :
    (∀ p : QrPayload, p.Valid R → (encodeQr p).utf8ByteSize ≤ 2048 →
      decodeQr R (encodeQr p) = .ok p) ∧
    ∀ uri, (Succeeds (decodeQr R uri) → DeclaresOne uri) ↔
      DeclaresOne uri ∨ DeclaresOther uri ∨ ¬∃ p, Says R uri p :=
  ⟨fun _ h hsize ↦ decodeQr_encodeQr h hsize, fun _ ↦ version_checked_iff⟩

section Example

def oneRelay : Readers where
  publicKeyFromHex s :=
    match hexDecode s with
    | some k => .ok k
    | none => .error "Invalid hex character"
  parseUrl s :=
    if s = "wss://relay.example" then .ok ⟨"wss", some "relay.example"⟩
    else .error "relative URL without a base"
  debug s := "\"" ++ s ++ "\""

def scanned : QrPayload := ⟨1, 2, 3, ["wss://relay.example"]⟩

theorem valid_scanned : scanned.Valid oneRelay where
  version := rfl
  key := by
    dsimp only [oneRelay]
    rw [hexDecode_hexEncode]
  secret := by decide
  relays := by simp [scanned]
  good := by
    intro relay hrelay
    obtain rfl : relay = "wss://relay.example" := List.mem_singleton.mp hrelay
    refine ⟨⟨"wss", some "relay.example"⟩, ?_, .inl rfl, nofun⟩
    dsimp only [oneRelay]
    exact if_pos rfl

def scannedText (version : String) : String :=
  "nostrpair://0000000000000000000000000000000000000000000000000000000000000002" ++
    "?secret=0000000000000000000000000000000000000000000000000000000000000003" ++
    "&relay=wss%3A%2F%2Frelay%2Eexample&v=" ++ version

/-- The versions 2.0 and 2^32 + 1 are taken for 1. -/
theorem qr_other_versions_accepted :
    (decodeQr oneRelay (scannedText "2.0") = .ok scanned ∧ ¬DeclaresOne (scannedText "2.0")) ∧
      decodeQr oneRelay (scannedText "4294967297") = .ok scanned ∧
        ¬DeclaresOne (scannedText "4294967297") := by
  have hpoint : scannedText "2.0" = uriOf scanned "2.0".toList := by decide +kernel
  have hlarge : scannedText "4294967297" = uriOf scanned "4294967297".toList := by decide +kernel
  constructor
  · have hsize : (scannedText "2.0").utf8ByteSize ≤ 2048 := by decide +kernel
    rw [hpoint] at hsize ⊢
    exact decodeQr_of_parseU32_eq_none valid_scanned (by decide) hsize (by decide)
  · have hsize : (scannedText "4294967297").utf8ByteSize ≤ 2048 := by decide +kernel
    rw [hlarge] at hsize ⊢
    exact decodeQr_of_parseU32_eq_none valid_scanned (by decide) hsize (by decide)

end Example

end Buzz.Pairing
