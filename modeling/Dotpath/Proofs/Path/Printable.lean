import Dotpath.Path.Derived
import Dotpath.Proofs.Path.Pieces

/-!
# Which paths can be written

Writing the segments of a text again gives the text (`printSegments_parseSegments`), so no two
texts denote the same segments.  The other way round, not every sequence of segments survives being
written and read: exactly the `Printable` ones do, and exactly these are read from some text
(`parseSegments_printSegments`, `printable_parseSegments`).
-/

namespace Dotpath

/-- The piece that is written for a segment. -/
def segmentPiece : Segment → List Char
  | none => ['^', '0']
  | some s => s.toList

/-- Whether a segment ends with a circumflex. -/
def endsWithCaret (s : Segment) : Bool := (segmentPiece s).getLast? == some '^'

/-- The sequences of segments that their written form denotes.  The empty text alone would be
written like no segments, the text `^0` like null, and a circumflex before a separator would escape
it. -/
structure Printable (ss : List Segment) : Prop where
  ne_empty_text : ss ≠ [some ""]
  null_text_notMem : some "^0" ∉ ss
  no_caret_before_dot : ∀ s ∈ ss.dropLast, endsWithCaret s = false

theorem toList_escape (s : Segment) : (escape s).toList = escapePiece (segmentPiece s) := by
  cases s with
  | none => rfl
  | some s => rw [escape, String.toList_ofList]; rfl

theorem segmentPiece_pieceSegment (p : List Char) : segmentPiece (pieceSegment p) = p := by
  by_cases hp : p = ['^', '0']
  · rw [pieceSegment, if_pos hp, hp]
    rfl
  · rw [pieceSegment, if_neg hp]
    exact String.toList_ofList

theorem pieceSegment_segmentPiece {s : Segment} (hs : s ≠ some "^0") :
    pieceSegment (segmentPiece s) = s := by
  cases s with
  | none => rfl
  | some s =>
    have hne : s.toList ≠ ['^', '0'] := fun h => hs (congrArg some (String.toList_injective h))
    rw [segmentPiece, pieceSegment, if_neg hne, String.ofList_toList]

theorem pieceSegment_ne (p : List Char) : pieceSegment p ≠ some "^0" := by
  intro h
  have hp : segmentPiece (pieceSegment p) = ['^', '0'] := by rw [h]; rfl
  rw [segmentPiece_pieceSegment] at hp
  simp [pieceSegment, hp] at h

theorem toList_printSegments (ss : List Segment) :
    (printSegments ss).toList = joinPieces (ss.map segmentPiece) := by
  rw [printSegments, String.toList_intercalate, joinPieces, List.map_map, List.map_map]
  exact congrArg _ (List.map_congr_left fun s _ => toList_escape s)

theorem parseSegments_empty : parseSegments "" = [] := rfl

theorem parseSegments_of_ne {text : String} (h : text ≠ "") :
    parseSegments text = (pieces text.toList).map pieceSegment := by
  unfold parseSegments
  split
  · next heq => exact absurd (String.toList_eq_nil_iff.1 heq) h
  · rfl

/-- The segments read from a text, written again, are the text. -/
theorem printSegments_parseSegments (text : String) :
    printSegments (parseSegments text) = text := by
  by_cases h : text = ""
  · subst h
    rfl
  · apply String.toList_injective
    rw [toList_printSegments, parseSegments_of_ne h, List.map_map]
    have hid : segmentPiece ∘ pieceSegment = id := funext segmentPiece_pieceSegment
    rw [hid, List.map_id, joinPieces_pieces]

/-- The segments read from a text are printable. -/
theorem printable_parseSegments (text : String) : Printable (parseSegments text) := by
  refine ⟨fun h => ?_, fun h => ?_, fun s hs => ?_⟩
  · have htext := printSegments_parseSegments text
    rw [h] at htext
    rw [← htext] at h
    exact absurd h (by decide)
  · by_cases ht : text = ""
    · simp [ht, parseSegments_empty] at h
    · rw [parseSegments_of_ne ht] at h
      obtain ⟨p, -, hp⟩ := List.mem_map.1 h
      exact pieceSegment_ne p hp
  · by_cases ht : text = ""
    · simp [ht, parseSegments_empty] at hs
    · rw [parseSegments_of_ne ht, ← List.map_dropLast] at hs
      obtain ⟨p, hp, rfl⟩ := List.mem_map.1 hs
      rw [endsWithCaret, segmentPiece_pieceSegment]
      exact beq_false_of_ne (getLast?_ne_of_mem_dropLast_pieces _ p hp)

/-- Printable segments are read again as they were written. -/
theorem parseSegments_printSegments {ss : List Segment} (hss : Printable ss) :
    parseSegments (printSegments ss) = ss := by
  by_cases hnil : ss = []
  · rw [hnil]
    rfl
  have hcut : pieces (printSegments ss).toList = ss.map segmentPiece := by
    rw [toList_printSegments]
    refine pieces_joinPieces (by simpa using hnil) fun p hp => ?_
    rw [← List.map_dropLast] at hp
    obtain ⟨s, hs, rfl⟩ := List.mem_map.1 hp
    exact ne_of_beq_false (hss.no_caret_before_dot s hs)
  have hback : (ss.map segmentPiece).map pieceSegment = ss := by
    rw [List.map_map]
    refine (List.map_congr_left fun s hs => ?_).trans (List.map_id ss)
    exact pieceSegment_segmentPiece fun h => hss.null_text_notMem (h ▸ hs)
  have hne : printSegments ss ≠ "" := by
    intro h
    -- The empty text is one empty piece, so there would be one empty text as segment.
    rw [h, show pieces "".toList = [[]] from rfl] at hcut
    rw [← hcut] at hback
    exact hss.ne_empty_text hback.symm
  rw [parseSegments_of_ne hne, hcut, hback]

/-- A circumflex before a separator is lost. -/
example : parseSegments (printSegments [some "a^", some "b"]) = [some "a.b"] := by decide +kernel

namespace Path

/-- A path made of given segments is written as they are: the empty one too. -/
theorem print_ofSegments (ss : List Segment) : (ofSegments ss).print = printSegments ss := by
  cases ss <;> rfl

/-- The segments of a parsed path, written again, are the text that was parsed.  So no two texts
denote the same segments. -/
theorem print_ofSegments_parse :
    (∀ text, (ofSegments (parse text).segments).print = text) ∧
      Function.Injective fun text => (parse text).segments := by
  have hprint (text : String) : (ofSegments (parse text).segments).print = text :=
    (print_ofSegments _).trans (printSegments_parseSegments text)
  refine ⟨hprint, fun s t hst => ?_⟩
  calc s = (ofSegments (parse s).segments).print := (hprint s).symm
    _ = (ofSegments (parse t).segments).print := congrArg (fun ss => (ofSegments ss).print) hst
    _ = t := hprint t

/-- The written form of a sequence of segments denotes that sequence exactly when it is printable,
and the printable sequences are exactly those that some text denotes. -/
theorem parse_print_ofSegments_iff (ss : List Segment) :
    ((parse (ofSegments ss).print).segments = ss ↔ Printable ss) ∧
      ((∃ text, (parse text).segments = ss) ↔ Printable ss) := by
  rw [print_ofSegments]
  have hback (hss : Printable ss) : (parse (printSegments ss)).segments = ss :=
    parseSegments_printSegments hss
  have hread {text : String} (h : (parse text).segments = ss) : Printable ss :=
    h ▸ printable_parseSegments text
  exact ⟨⟨hread, hback⟩, fun ⟨_, h⟩ => hread h, fun hss => ⟨_, hback hss⟩⟩

end Path

end Dotpath
