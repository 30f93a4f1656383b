import Buzz.Lib.Hex

namespace Buzz.Nostr

open Buzz.Lib.Hex

abbrev Uuid := Fin (2 ^ 128)
abbrev CommunityId := Uuid
abbrev ConnId := Uuid
abbrev SubId := String
abbrev EventId := Fin (2 ^ 256)
abbrev PublicKey := Fin (2 ^ 256)
abbrev Signature := Fin (2 ^ 512)
abbrev Kind := Fin (2 ^ 16)
abbrev Timestamp := UInt64

instance neZero_two_pow_16 : NeZero (2 ^ 16) := ⟨by norm_num⟩
instance neZero_two_pow_64 : NeZero (2 ^ 64) := ⟨by norm_num⟩
instance neZero_two_pow_128 : NeZero (2 ^ 128) := ⟨by norm_num⟩
instance neZero_two_pow_160 : NeZero (2 ^ 160) := ⟨by norm_num⟩
instance neZero_two_pow_256 : NeZero (2 ^ 256) := ⟨by norm_num⟩
instance neZero_two_pow_512 : NeZero (2 ^ 512) := ⟨by norm_num⟩

instance lawfulBEq_uuid : LawfulBEq Uuid := inferInstance
instance lawfulBEq_publicKey : LawfulBEq PublicKey := inferInstance
instance lawfulBEq_member : LawfulBEq (Uuid × PublicKey) := inferInstance

def hexEncode (b : Fin (2 ^ 256)) : String := String.ofList (hexDigits 64 b.val)

theorem hexEncode_injective : Function.Injective hexEncode := by
  intro a b h
  have hd : hexDigits 64 a.val = hexDigits 64 b.val := by
    simpa only [hexEncode, String.toList_ofList] using congrArg String.toList h
  have hpow : (16 : ℕ) ^ 64 = 2 ^ 256 := by norm_num
  exact Fin.ext (hexDigits_injective (by rw [hpow]; exact a.isLt) (by rw [hpow]; exact b.isLt) hd)

def hexDecode (s : String) : Option (Fin (2 ^ 256)) :=
  if s.toList.length = 64 then
    (parseHex s.toList).bind fun n ↦ if h : n < 2 ^ 256 then some ⟨n, h⟩ else none
  else none

theorem hexDecode_hexEncode (b : Fin (2 ^ 256)) : hexDecode (hexEncode b) = some b := by
  have hpow : (16 : ℕ) ^ 64 = 2 ^ 256 := by norm_num
  have hparse : parseHex (hexDigits 64 b.val) = some b.val :=
    parseHex_hexDigits (by rw [hpow]; exact b.isLt)
  rw [hexDecode, hexEncode, String.toList_ofList, if_pos (length_hexDigits 64 b.val), hparse,
    Option.bind_some, dif_pos b.isLt]

def uuidToString (u : Uuid) : String :=
  let d := hexDigits 32 u.val
  String.ofList (d.take 8 ++ '-' :: (d.drop 8).take 4 ++ '-' :: (d.drop 12).take 4 ++
    '-' :: (d.drop 16).take 4 ++ '-' :: d.drop 20)

theorem length_uuidToString (u : Uuid) : (uuidToString u).toList.length = 36 := by
  simp [uuidToString]

theorem uuidToString_injective : Function.Injective uuidToString := by
  intro u v h
  have hlist := congrArg String.toList h
  simp only [uuidToString, String.toList_ofList] at hlist
  obtain ⟨hlist, h₂₀⟩ := List.append_inj' hlist (by simp)
  obtain ⟨hlist, h₁₆⟩ := List.append_inj' hlist (by simp)
  obtain ⟨hlist, h₁₂⟩ := List.append_inj' hlist (by simp)
  obtain ⟨h₀, h₈⟩ := List.append_inj' hlist (by simp)
  have hrebuild (d : List Char) : d = d.take 8 ++ ((d.drop 8).take 4 ++ ((d.drop 12).take 4 ++
      ((d.drop 16).take 4 ++ d.drop 20))) := by
    rw [show d.drop 20 = (d.drop 16).drop 4 by simp, List.take_append_drop,
      show d.drop 16 = (d.drop 12).drop 4 by simp, List.take_append_drop,
      show d.drop 12 = (d.drop 8).drop 4 by simp, List.take_append_drop, List.take_append_drop]
  have hdigits : hexDigits 32 u.val = hexDigits 32 v.val := by
    rw [hrebuild (hexDigits 32 u.val), hrebuild (hexDigits 32 v.val), h₀, List.cons.inj h₈ |>.2,
      List.cons.inj h₁₂ |>.2, List.cons.inj h₁₆ |>.2, List.cons.inj h₂₀ |>.2]
  have hpow : (16 : ℕ) ^ 32 = 2 ^ 128 := by norm_num
  exact Fin.ext (hexDigits_injective (by rw [hpow]; exact u.isLt) (by rw [hpow]; exact v.isLt)
    hdigits)

def uuidOfDigits (d : List Char) : Option Uuid :=
  if d.length = 32 then
    (parseHex d).bind fun n ↦ if h : n < 2 ^ 128 then some ⟨n, h⟩ else none
  else none

def parseHyphenated (s : List Char) : Option Uuid :=
  if s.length = 36 ∧ s[8]? = some '-' ∧ s[13]? = some '-' ∧ s[18]? = some '-' ∧
      s[23]? = some '-' then
    uuidOfDigits (s.take 8 ++ (s.drop 9).take 4 ++ (s.drop 14).take 4 ++
      (s.drop 19).take 4 ++ s.drop 24)
  else none

def parseUuid (s : String) : Option Uuid :=
  let cs := s.toList
  if cs.length = 32 then uuidOfDigits cs
  else if cs.length = 36 then parseHyphenated cs
  else if cs.length = 38 ∧ cs.head? = some '{' ∧ cs.getLast? = some '}' then
    parseHyphenated (cs.drop 1).dropLast
  else if cs.length = 45 ∧ cs.take 9 = "urn:uuid:".toList then parseHyphenated (cs.drop 9)
  else none

/-- A tag is never empty: its first element is its kind. -/
structure Tag where
  name : String
  rest : List String
deriving DecidableEq, Repr

namespace Tag

def asSlice (t : Tag) : List String := t.name :: t.rest

def kind (t : Tag) : String := t.name

def content (t : Tag) : Option String := t.rest.head?

end Tag

structure Event where
  id : EventId
  pubkey : PublicKey
  createdAt : Timestamp
  kind : Kind
  tags : List Tag
  content : String
  sig : Signature
deriving DecidableEq, Repr

/-- The event with the channel scope the relay assigned; `none` for global events. -/
structure StoredEvent where
  event : Event
  channelId : Option Uuid
deriving DecidableEq, Repr

def Event.tagContents (e : Event) (name : String) : List String :=
  (e.tags.filter fun t ↦ t.kind == name).filterMap Tag.content

end Buzz.Nostr
