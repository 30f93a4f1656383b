import Buzz.Agent.History
import Buzz.Lib.Decimal
import Buzz.Lib.Texts
import Mathlib.Algebra.BigOperators.Ring.List

namespace Buzz.Agent

open Buzz.Lib

def MARKER_FIELD_MAX : ℕ := 256

def ELISION_MARKER_ALLOWANCE : ℕ := 128

inductive RawContent
  | text (text : String)
  | image (data mimeType : String)
  | audio (data mimeType : String)
  | resourceLink (uri : String)
  | resource
deriving DecidableEq, Repr

def truncateAtBoundary (s : List Char) (max : ℕ) : List Char :=
  if Utf8.len s ≤ max then s else Utf8.sliceTo s (Utf8.floorCharBoundary s max)

def elisionMarker (elided len : ℕ) : List Char :=
  "\n[... ".toList ++ (toString elided).toList ++ " of ".toList ++ (toString len).toList ++
    " bytes elided from tool result ...]\n".toList

def truncateMiddle (s : List Char) (max : ℕ) : List Char :=
  if Utf8.len s ≤ max then s
  else
    let keep := max - ELISION_MARKER_ALLOWANCE
    if keep = 0 then truncateAtBoundary s max
    else
      let head := truncateAtBoundary s ((keep + 1) / 2)
      let tailStart := Utf8.ceilCharBoundary s (Utf8.len s - keep / 2)
      let tail := Utf8.sliceFrom s tailStart
      let elided := Utf8.len s - Utf8.len head - Utf8.len tail
      head ++ elisionMarker elided (Utf8.len s) ++ tail

/-- The loop of `tool_result_content`: the blocks of the result, the text not yet among them, and
the bytes that they take. -/
structure Assembly where
  out : List ToolResultContent := []
  text : List Char := []
  used : ℕ := 0
  textUsed : ℕ := 0

def short (s : String) : List Char := truncateAtBoundary s.toList MARKER_FIELD_MAX

def appendLine (text s : List Char) : List Char :=
  if text = [] then s else text ++ '\n' :: s

def imageMarker (data mimeType : String) : List Char :=
  "[image elided: ".toList ++ short mimeType ++ ", ".toList ++
    (toString data.utf8ByteSize).toList ++
    " base64 bytes exceeds remaining tool-result budget]".toList

def RawContent.line : RawContent → List Char
  | text s => s.toList
  | image data mimeType => imageMarker data mimeType
  | audio data mimeType => "[audio elided: ".toList ++ short mimeType ++ ", ".toList ++
      (toString data.utf8ByteSize).toList ++ " bytes]".toList
  | resourceLink uri => "[resource: ".toList ++ short uri ++ "]".toList
  | resource => "[resource elided]".toList

def textBlock (kept : List Char) : List ToolResultContent :=
  if kept = [] then [] else [.text (String.ofList kept)]

section Assembly

variable (maxBytes maxTextBytes : ℕ)

def flushText (a : Assembly) : Assembly :=
  if a.text = [] then a
  else
    let budget := min (maxTextBytes - a.textUsed) (maxBytes - a.used)
    let kept := truncateMiddle a.text budget
    { out := a.out ++ textBlock kept
      text := []
      used := a.used + Utf8.len kept
      textUsed := a.textUsed + Utf8.len kept }

def place (a : Assembly) (c : RawContent) : Assembly :=
  match c with
  | .image data mimeType =>
    let a := flushText maxBytes maxTextBytes a
    let imageBytes := data.utf8ByteSize + mimeType.utf8ByteSize
    if a.used + imageBytes ≤ maxBytes then
      { a with used := a.used + imageBytes, out := a.out ++ [.image data mimeType] }
    else { a with text := appendLine a.text c.line }
  | c => { a with text := appendLine a.text c.line }

def toolResultContent (blocks : List RawContent) : List ToolResultContent :=
  (flushText maxBytes maxTextBytes (blocks.foldl (place maxBytes maxTextBytes) {})).out

end Assembly

theorem len_append₅ (a b c d e : List Char) : Utf8.len (a ++ b ++ c ++ d ++ e) =
    Utf8.len a + Utf8.len b + Utf8.len c + Utf8.len d + Utf8.len e := by
  simp only [Utf8.len_append]

theorem len_elisionMarker (elided len : ℕ) : Utf8.len (elisionMarker elided len) =
    6 + Utf8.len (toString elided).toList + 4 + Utf8.len (toString len).toList + 36 :=
  len_append₅ _ _ _ _ _

theorem len_elisionMarker_le {elided len : ℕ} (helided : elided < 10 ^ 40) (hlen : len < 10 ^ 40) :
    Utf8.len (elisionMarker elided len) ≤ ELISION_MARKER_ALLOWANCE := by
  have hfirst := Decimal.len_toString_le (k := 40) (by decide) helided
  have hsecond := Decimal.len_toString_le (k := 40) (by decide) hlen
  have hmarker := len_elisionMarker elided len
  rw [ELISION_MARKER_ALLOWANCE]
  omega

section Truncation

variable {s : List Char} {max budget : ℕ}

theorem truncateAtBoundary_of_lt (h : max < Utf8.len s) :
    truncateAtBoundary s max = Utf8.sliceTo s (Utf8.floorCharBoundary s max) :=
  if_neg (Nat.not_le.mpr h)

theorem truncateAtBoundary_prefix (s : List Char) (max : ℕ) : truncateAtBoundary s max <+: s := by
  rw [truncateAtBoundary]
  split
  · exact List.prefix_refl s
  · exact ⟨_, Utf8.sliceTo_append_sliceFrom s _⟩

theorem len_truncateAtBoundary_le (s : List Char) (max : ℕ) :
    Utf8.len (truncateAtBoundary s max) ≤ max := by
  rw [truncateAtBoundary]
  split
  · assumption
  · rw [Utf8.len_sliceTo (Utf8.isCharBoundary_floor s max)]
    exact Utf8.floor_le s max

/-- What becomes of a text under a budget: all of it, its head alone where the budget has no room
beyond the marker's, or head and tail around a marker that counts the bytes between them. -/
inductive Shortened (budget : ℕ) (s : List Char) : List Char → Prop
  | whole : Utf8.len s ≤ budget → Shortened budget s s
  | head {t : List Char} : budget < Utf8.len s → budget ≤ ELISION_MARKER_ALLOWANCE → t <+: s →
      Utf8.len t ≤ budget → Shortened budget s t
  | middle {head mid tail : List Char} : budget < Utf8.len s → ELISION_MARKER_ALLOWANCE < budget →
      s = head ++ mid ++ tail →
      Utf8.len (head ++ elisionMarker (Utf8.len mid) (Utf8.len s) ++ tail) ≤ budget →
      Shortened budget s (head ++ elisionMarker (Utf8.len mid) (Utf8.len s) ++ tail)

theorem Shortened.len_le {t : List Char} (h : Shortened budget s t) : Utf8.len t ≤ budget := by
  cases h with
  | whole hle => exact hle
  | head _ _ _ hle => exact hle
  | middle _ _ _ hle => exact hle

theorem truncateMiddle_shortened (hlen : Utf8.len s < 10 ^ 40) (budget : ℕ) :
    Shortened budget s (truncateMiddle s budget) := by
  rw [truncateMiddle]
  split
  · next hle => exact .whole hle
  · next hlt =>
    have hlt := Nat.not_le.mp hlt
    rw [ELISION_MARKER_ALLOWANCE]
    dsimp only
    split
    · next hkeep =>
      apply Shortened.head hlt (by rw [ELISION_MARKER_ALLOWANCE]; omega)
      · exact truncateAtBoundary_prefix s budget
      · exact len_truncateAtBoundary_le s budget
    · next hkeep =>
      rw [truncateAtBoundary_of_lt (by omega)]
      have hbetween := Utf8.floor_le s ((budget - 128 + 1) / 2)
      have hbeyond := Utf8.le_ceil s (Utf8.len s - (budget - 128) / 2)
      have hfloor := Utf8.isCharBoundary_floor s ((budget - 128 + 1) / 2)
      have hceil := Utf8.isCharBoundary_ceil (i := Utf8.len s - (budget - 128) / 2)
        (Nat.sub_le _ _)
      have hend := Utf8.ceil_le (i := Utf8.len s - (budget - 128) / 2) (Nat.sub_le _ _)
      generalize Utf8.floorCharBoundary s ((budget - 128 + 1) / 2) = i at *
      generalize Utf8.ceilCharBoundary s (Utf8.len s - (budget - 128) / 2) = j at *
      obtain ⟨mid, hmid, hmidlen⟩ := Utf8.exists_middle hfloor hceil (by omega)
      rw [Utf8.len_sliceTo hfloor, Utf8.len_sliceFrom hceil,
        show Utf8.len s - i - (Utf8.len s - j) = Utf8.len mid by omega]
      apply Shortened.middle hlt (by rw [ELISION_MARKER_ALLOWANCE]; omega) hmid
      have hmarker : Utf8.len (elisionMarker (Utf8.len mid) (Utf8.len s)) ≤
          ELISION_MARKER_ALLOWANCE := len_elisionMarker_le (by omega) hlen
      rw [ELISION_MARKER_ALLOWANCE] at hmarker
      rw [Utf8.len_append, Utf8.len_append, Utf8.len_sliceTo hfloor, Utf8.len_sliceFrom hceil]
      omega

end Truncation

inductive Piece
  | text (s : List Char)
  | image (data mimeType : String)

def flushed (text : List Char) : List Piece := if text = [] then [] else [.text text]

/-- The images that are kept and the texts between them, in the order of the blocks. The text of an
image that is not kept is its marker. -/
def pieces : List (RawContent × Bool) → List Char → List Piece
  | [], text => flushed text
  | (.image data mimeType, true) :: blocks, text =>
    flushed text ++ .image data mimeType :: pieces blocks []
  | (.image data mimeType, false) :: blocks, text =>
    flushed text ++ pieces blocks (imageMarker data mimeType)
  | (c, _) :: blocks, text => pieces blocks (appendLine text c.line)

section Rendered

variable (maxBytes maxTextBytes : ℕ)

inductive Rendered : ℕ → ℕ → List Piece → List ToolResultContent → Prop
  | nil {used textUsed : ℕ} : Rendered used textUsed [] []
  | text {used textUsed : ℕ} {s t : List Char} {ps : List Piece} {out : List ToolResultContent} :
      Shortened (min (maxTextBytes - textUsed) (maxBytes - used)) s t →
      Rendered (used + Utf8.len t) (textUsed + Utf8.len t) ps out →
      Rendered used textUsed (.text s :: ps) (textBlock t ++ out)
  | image {used textUsed : ℕ} {data mimeType : String} {ps : List Piece}
      {out : List ToolResultContent} :
      used + (data.utf8ByteSize + mimeType.utf8ByteSize) ≤ maxBytes →
      Rendered (used + (data.utf8ByteSize + mimeType.utf8ByteSize)) textUsed ps out →
      Rendered used textUsed (.image data mimeType :: ps) (.image data mimeType :: out)

variable {maxBytes maxTextBytes}

def ToolResultContent.textBytes : ToolResultContent → ℕ
  | text s => s.utf8ByteSize
  | image _ _ => 0

theorem sum_textBlock (t : List Char) :
    ((textBlock t).map ToolResultContent.textBytes).sum = Utf8.len t ∧
      ((textBlock t).map ToolResultContent.estimatedBytes).sum = Utf8.len t := by
  rw [textBlock]
  split
  · next ht => simp [ht]
  · simp [ToolResultContent.textBytes, ToolResultContent.estimatedBytes, utf8ByteSize_ofList]

theorem Rendered.bytes_le {used textUsed : ℕ} {ps : List Piece} {out : List ToolResultContent}
    (h : Rendered maxBytes maxTextBytes used textUsed ps out) (hused : used ≤ maxBytes)
    (htext : textUsed ≤ maxTextBytes) :
    textUsed + (out.map ToolResultContent.textBytes).sum ≤ maxTextBytes ∧
      used + (out.map ToolResultContent.estimatedBytes).sum ≤ maxBytes := by
  induction h with
  | nil => simpa using ⟨htext, hused⟩
  | @text used textUsed s t ps out hshort _ ih =>
    have hle := hshort.len_le
    have hrest := ih (by omega) (by omega)
    rw [List.map_append, List.map_append, List.sum_append, List.sum_append, (sum_textBlock t).1,
      (sum_textBlock t).2]
    omega
  | image hfits _ ih =>
    have hrest := ih hfits htext
    simp only [List.map_cons, List.sum_cons, ToolResultContent.textBytes,
      ToolResultContent.estimatedBytes]
    omega

variable (maxBytes maxTextBytes)

theorem flushText_rendered {a : Assembly} (hlen : Utf8.len a.text < 10 ^ 40) :
    ∃ front, (flushText maxBytes maxTextBytes a).out = a.out ++ front ∧
      (flushText maxBytes maxTextBytes a).text = [] ∧
      ∀ ps out, Rendered maxBytes maxTextBytes (flushText maxBytes maxTextBytes a).used
          (flushText maxBytes maxTextBytes a).textUsed ps out →
        Rendered maxBytes maxTextBytes a.used a.textUsed (flushed a.text ++ ps) (front ++ out) := by
  rw [flushText, flushed]
  split
  · next hempty => exact ⟨[], (List.append_nil _).symm, hempty, fun ps out h ↦ h⟩
  · exact ⟨_, rfl, rfl, fun ps out h ↦ .text (truncateMiddle_shortened hlen _) h⟩

def lineBytes (c : RawContent) : ℕ := Utf8.len c.line + 1

theorem len_appendLine_le (text : List Char) (c : RawContent) :
    Utf8.len (appendLine text c.line) ≤ Utf8.len text + lineBytes c := by
  have hnewline : Char.utf8Size '\n' = 1 := rfl
  rw [appendLine, lineBytes]
  split
  · omega
  · rw [Utf8.len_append, Utf8.len_cons, hnewline]
    omega

theorem rendered_foldl (blocks : List RawContent) (a : Assembly)
    (hfits : Utf8.len a.text + (blocks.map lineBytes).sum < 10 ^ 40) :
    ∃ kept out, kept.length = blocks.length ∧
      (flushText maxBytes maxTextBytes (blocks.foldl (place maxBytes maxTextBytes) a)).out =
        a.out ++ out ∧
      Rendered maxBytes maxTextBytes a.used a.textUsed (pieces (blocks.zip kept) a.text) out := by
  induction blocks generalizing a with
  | nil =>
    obtain ⟨front, hout, -, hrendered⟩ := flushText_rendered maxBytes maxTextBytes (a := a)
      (by simpa using hfits)
    refine ⟨[], front, rfl, hout, ?_⟩
    simpa [pieces] using hrendered [] [] .nil
  | cons c blocks ih =>
    rw [List.map_cons, List.sum_cons] at hfits
    rw [List.foldl_cons]
    have hline (htext : ∀ kept, pieces ((c :: blocks).zip (true :: kept)) a.text =
          pieces (blocks.zip kept) (appendLine a.text c.line))
        (hplace : place maxBytes maxTextBytes a c =
          { a with text := appendLine a.text c.line }) :
        ∃ kept out, kept.length = (c :: blocks).length ∧
          (flushText maxBytes maxTextBytes (blocks.foldl (place maxBytes maxTextBytes)
            (place maxBytes maxTextBytes a c))).out = a.out ++ out ∧
          Rendered maxBytes maxTextBytes a.used a.textUsed
            (pieces ((c :: blocks).zip kept) a.text) out := by
      have hlen := len_appendLine_le a.text c
      obtain ⟨kept, out, hkept, hout, hrendered⟩ :=
        ih { a with text := appendLine a.text c.line } (by dsimp only; omega)
      refine ⟨true :: kept, out, by simp [hkept], ?_, ?_⟩
      · rw [hplace, hout]
      · rw [htext]
        exact hrendered
    cases c with
    | text s => exact hline (fun kept ↦ rfl) rfl
    | audio data mimeType => exact hline (fun kept ↦ rfl) rfl
    | resourceLink uri => exact hline (fun kept ↦ rfl) rfl
    | resource => exact hline (fun kept ↦ rfl) rfl
    | image data mimeType =>
      obtain ⟨front, hfront, hempty, hflush⟩ := flushText_rendered maxBytes maxTextBytes (a := a)
        (by omega)
      rw [place]
      split
      · next hroom =>
        obtain ⟨kept, out, hkept, hout, hrendered⟩ := ih { (flushText maxBytes maxTextBytes a) with
            used := (flushText maxBytes maxTextBytes a).used +
              (data.utf8ByteSize + mimeType.utf8ByteSize)
            out := (flushText maxBytes maxTextBytes a).out ++ [.image data mimeType] } (by
          simp only [hempty, Utf8.len_nil]
          omega)
        refine ⟨true :: kept, front ++ .image data mimeType :: out, by simp [hkept], ?_, ?_⟩
        · rw [hout, hfront]
          simp
        · simp only [hempty] at hrendered
          exact hflush _ _ (.image hroom hrendered)
      · next hroom =>
        rw [hempty]
        obtain ⟨kept, out, hkept, hout, hrendered⟩ := ih { (flushText maxBytes maxTextBytes a) with
            text := appendLine [] (RawContent.image data mimeType).line } (by
          rw [lineBytes] at hfits
          simp only [appendLine, if_true]
          omega)
        refine ⟨false :: kept, front ++ out, by simp [hkept], ?_, ?_⟩
        · rw [hout, hfront]
          simp
        · exact hflush _ _ hrendered

end Rendered

def RawContent.memory : RawContent → ℕ
  | text s => s.utf8ByteSize + 1
  | image data mimeType => data.utf8ByteSize + mimeType.utf8ByteSize + 1
  | audio data mimeType => data.utf8ByteSize + mimeType.utf8ByteSize + 1
  | resourceLink uri => uri.utf8ByteSize + 1
  | resource => 1

structure ToolAnswer where
  blocks : List RawContent
  fits : (blocks.map RawContent.memory).sum < 2 ^ 64

theorem len_image_line (data mimeType : String) :
    Utf8.len (RawContent.image data mimeType).line = 15 + Utf8.len (short mimeType) + 2 +
      Utf8.len (toString data.utf8ByteSize).toList + 51 :=
  len_append₅ _ _ _ _ _

theorem len_audio_line (data mimeType : String) :
    Utf8.len (RawContent.audio data mimeType).line = 15 + Utf8.len (short mimeType) + 2 +
      Utf8.len (toString data.utf8ByteSize).toList + 7 :=
  len_append₅ _ _ _ _ _

theorem len_resourceLink_line (uri : String) :
    Utf8.len (RawContent.resourceLink uri).line = 0 + 11 + Utf8.len (short uri) + 1 + 0 := by
  rw [← List.append_nil (RawContent.resourceLink uri).line]
  exact len_append₅ [] _ _ _ []

theorem lineBytes_le (c : RawContent) : lineBytes c ≤ 512 * c.memory := by
  have hdigits (n : ℕ) : Utf8.len (toString n).toList ≤ n + 1 :=
    Decimal.len_toString_le (Nat.succ_pos n)
      (Nat.lt_of_succ_lt (Nat.lt_pow_self (by decide : 1 < 10)))
  have hfield (s : String) : Utf8.len (short s) ≤ 256 := len_truncateAtBoundary_le _ _
  cases c with
  | text s =>
    have hline : Utf8.len (RawContent.text s).line = s.utf8ByteSize := Utf8.len_toList s
    simp only [lineBytes, RawContent.memory]
    omega
  | image data mimeType =>
    have hline := len_image_line data mimeType
    have hmime := hfield mimeType
    have hsize := hdigits data.utf8ByteSize
    simp only [lineBytes, RawContent.memory]
    omega
  | audio data mimeType =>
    have hline := len_audio_line data mimeType
    have hmime := hfield mimeType
    have hsize := hdigits data.utf8ByteSize
    simp only [lineBytes, RawContent.memory]
    omega
  | resourceLink uri =>
    have hline := len_resourceLink_line uri
    have huri := hfield uri
    simp only [lineBytes, RawContent.memory]
    omega
  | resource =>
    have hline : Utf8.len RawContent.resource.line = 17 := rfl
    simp only [lineBytes, RawContent.memory]
    omega

/-- A tool result keeps to both budgets, and has the images and texts of the answer in order, each
image whole or as a line of the text, each text whole or shortened to what the budgets leave. -/
theorem toolResultContent_fits (answer : ToolAnswer) (maxBytes maxTextBytes : ℕ) :
    ((toolResultContent maxBytes maxTextBytes answer.blocks).map
      ToolResultContent.textBytes).sum ≤ maxTextBytes ∧
    ((toolResultContent maxBytes maxTextBytes answer.blocks).map
      ToolResultContent.estimatedBytes).sum ≤ maxBytes ∧
    ∃ kept : List Bool, kept.length = answer.blocks.length ∧
      Rendered maxBytes maxTextBytes 0 0 (pieces (answer.blocks.zip kept) [])
        (toolResultContent maxBytes maxTextBytes answer.blocks) := by
  have hlines : (answer.blocks.map lineBytes).sum ≤
      (answer.blocks.map fun c ↦ 512 * c.memory).sum :=
    List.sum_le_sum fun c _ ↦ lineBytes_le c
  rw [List.sum_map_mul_left] at hlines
  have hfits := answer.fits
  obtain ⟨kept, out, hkept, hout, hrendered⟩ := rendered_foldl maxBytes maxTextBytes
    answer.blocks {} (by
      simp only [Utf8.len_nil]
      omega)
  rw [← toolResultContent, List.nil_append] at hout
  have hbytes := hrendered.bytes_le (Nat.zero_le _) (Nat.zero_le _)
  rw [hout]
  simp only [Nat.zero_add] at hbytes
  exact ⟨hbytes.1, hbytes.2, kept, hkept, hrendered⟩

def screenshotAnswer : ToolAnswer where
  blocks := [.text "before", .image "AAAA" "image/png", .resourceLink "file:///a", .text "after"]
  fits := by decide

theorem toolResultContent_fits_screenshot :
    ((toolResultContent 40 20 screenshotAnswer.blocks).map ToolResultContent.textBytes).sum ≤ 20 ∧
      ((toolResultContent 40 20 screenshotAnswer.blocks).map
        ToolResultContent.estimatedBytes).sum ≤ 40 ∧
      (toolResultContent 40 20 screenshotAnswer.blocks).length = 3 :=
  ⟨(toolResultContent_fits screenshotAnswer 40 20).1,
    (toolResultContent_fits screenshotAnswer 40 20).2.1, by decide⟩

/-- Small budgets leave an image neither whole nor its marker, and a text without a marker that
would have fitted. -/
theorem small_budgets_cut_markers :
    toolResultContent 8 8 [.image "AAAA" "image/png"] = [.text "[image e"] ∧
    toolResultContent 70 70 [.text (String.ofList (List.replicate 99 'a'))] =
      [.text (String.ofList (List.replicate 70 'a'))] ∧
    Utf8.len (elisionMarker 99 99) < 70 := by
  decide

end Buzz.Agent
