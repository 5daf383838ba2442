import Dotpath.Path.Derived
import Dotpath.Proofs.Path.History

/-!
# Joining texts and appending paths

Writing takes appending to joining with a dot, whatever the segments are (`printSegments_append`).
Reading takes joining to appending only where the dot in the middle separates two segments: neither
text is empty, and the first does not end with a circumflex (`parse_join_iff`).

Both directions rest on one fact.  The segments of two texts, one after the other, are written as
the two texts joined; so they are what is read from these exactly when they are printable
(`printable_append_iff`).
-/

namespace Dotpath

theorem joinPieces_append {ps qs : List (List Char)} (hps : ps ≠ []) (hqs : qs ≠ []) :
    joinPieces (ps ++ qs) = joinPieces ps ++ '.' :: joinPieces qs := by
  induction ps with
  | nil => exact absurd rfl hps
  | cons p ps ih =>
    by_cases hnil : ps = []
    · rw [hnil, List.singleton_append, joinPieces_cons_of_ne_nil p hqs, joinPieces_singleton]
    · rw [List.cons_append, joinPieces_cons_of_ne_nil p (by simp [hnil]), ih hnil,
        joinPieces_cons_of_ne_nil p hnil, List.append_assoc, List.cons_append]

/-- Written pieces end with a circumflex where the last of them does. -/
theorem getLast?_joinPieces_eq_caret_iff (ps : List (List Char)) (p : List Char) :
    (joinPieces (ps ++ [p])).getLast? = some '^' ↔ p.getLast? = some '^' := by
  by_cases hnil : ps = []
  · rw [hnil, List.nil_append, joinPieces_singleton, getLast?_escapePiece]
  · rw [joinPieces_append hnil (List.cons_ne_nil p []), joinPieces_singleton, List.getLast?_append,
      List.getLast?_cons, getLast?_escapePiece]
    -- An empty last piece leaves the dot before it at the end.
    cases p.getLast? <;> simp

/-- Segments one after the other are written with a dot between them. -/
theorem printSegments_append {ss ts : List Segment} (hss : ss ≠ []) (hts : ts ≠ []) :
    printSegments (ss ++ ts) = printSegments ss ++ "." ++ printSegments ts := by
  apply String.toList_injective
  rw [toList_printSegments, List.map_append, joinPieces_append (by simpa using hss)
    (by simpa using hts), String.toList_append, String.toList_append, toList_printSegments,
    toList_printSegments, List.append_assoc]
  rfl

theorem endsWithCaret_getLast_iff {ss : List Segment} (hss : ss ≠ []) :
    endsWithCaret (ss.getLast hss) = true ↔ (printSegments ss).toList.getLast? = some '^' := by
  have hlast : ss.map segmentPiece =
      ss.dropLast.map segmentPiece ++ [segmentPiece (ss.getLast hss)] := by
    rw [← List.map_singleton, ← List.map_append, List.dropLast_concat_getLast]
  rw [toList_printSegments, hlast, getLast?_joinPieces_eq_caret_iff, endsWithCaret, beq_iff_eq]

/-- Printable segments stay printable when others follow, unless the written form of the first ones
ends with a circumflex, which would escape the dot in the middle. -/
theorem printable_append_iff {ss ts : List Segment} (hss : ss ≠ []) (hts : ts ≠ [])
    (hs : Printable ss) (ht : Printable ts) :
    Printable (ss ++ ts) ↔ (printSegments ss).toList.getLast? ≠ some '^' := by
  have hdrop : (ss ++ ts).dropLast = ss ++ ts.dropLast := List.dropLast_append_of_ne_nil hts
  constructor
  · intro h hcaret
    have hmem : ss.getLast hss ∈ (ss ++ ts).dropLast := by
      rw [hdrop]
      exact List.mem_append_left _ (List.getLast_mem hss)
    have hends := (endsWithCaret_getLast_iff hss).2 hcaret
    rw [h.no_caret_before_dot _ hmem] at hends
    cases hends
  · intro hcaret
    refine ⟨fun h => ?_, fun h => ?_, fun s hmem => ?_⟩
    · rcases List.append_eq_singleton_iff.1 h with ⟨h, -⟩ | ⟨-, h⟩
      · exact hss h
      · exact hts h
    · exact (List.mem_append.1 h).elim hs.null_text_notMem ht.null_text_notMem
    · rw [hdrop, ← List.dropLast_concat_getLast hss, List.append_assoc] at hmem
      rcases List.mem_append.1 hmem with hmem | hmem
      · exact hs.no_caret_before_dot s hmem
      rcases List.mem_append.1 hmem with hmem | hmem
      · rw [List.mem_singleton.1 hmem]
        exact Bool.eq_false_iff.2 fun h => hcaret ((endsWithCaret_getLast_iff hss).1 h)
      · exact ht.no_caret_before_dot s hmem

/-- What is read from written segments is these segments where they are printable, and only there. -/
theorem parseSegments_printSegments_iff (ss : List Segment) :
    parseSegments (printSegments ss) = ss ↔ Printable ss :=
  ⟨fun h => h ▸ printable_parseSegments _, parseSegments_printSegments⟩

theorem parseSegments_injective : Function.Injective parseSegments := by
  intro s t h
  rw [← printSegments_parseSegments s, h, printSegments_parseSegments]

theorem parseSegments_ne_nil {text : String} (h : text ≠ "") : parseSegments text ≠ [] :=
  fun hnil => h (parseSegments_injective (hnil.trans parseSegments_empty.symm))

/-- Two texts joined with a dot denote the segments of the first and then those of the second,
provided that neither is empty and no circumflex takes the dot for its own. -/
theorem parseSegments_join_iff (a b : String) :
    parseSegments (a ++ "." ++ b) = parseSegments a ++ parseSegments b ↔
      a ≠ "" ∧ b ≠ "" ∧ a.toList.getLast? ≠ some '^' := by
  have hlength : (a ++ "." ++ b).length = a.length + 1 + b.length := by
    rw [String.length_append, String.length_append]
    rfl
  -- With an empty text, the longer joined text would denote the same as the other alone.
  by_cases ha : a = ""
  · refine iff_of_false (fun h => ?_) fun h => h.1 ha
    have hsame : parseSegments (a ++ "." ++ b) = parseSegments b := by
      rw [h, ha, parseSegments_empty, List.nil_append]
    have := congrArg String.length (parseSegments_injective hsame)
    omega
  by_cases hb : b = ""
  · refine iff_of_false (fun h => ?_) fun h => h.2.1 hb
    have hsame : parseSegments (a ++ "." ++ b) = parseSegments a := by
      rw [h, hb, parseSegments_empty, List.append_nil]
    have := congrArg String.length (parseSegments_injective hsame)
    omega
  · have hss := parseSegments_ne_nil ha
    have hts := parseSegments_ne_nil hb
    have hprint : printSegments (parseSegments a ++ parseSegments b) = a ++ "." ++ b := by
      rw [printSegments_append hss hts, printSegments_parseSegments, printSegments_parseSegments]
    have hprintable := printable_append_iff hss hts (printable_parseSegments a)
      (printable_parseSegments b)
    rw [printSegments_parseSegments] at hprintable
    rw [← hprint, parseSegments_printSegments_iff, hprintable]
    exact ⟨fun h => ⟨ha, hb, h⟩, fun h => h.2.2⟩

namespace Path

theorem segments_ne_nil {p : Path} (hp : p.isEmpty = false) : p.segments ≠ [] := by
  simpa [isEmpty] using hp

/-- Reading takes joining to appending exactly where the dot in the middle is a separator, and
writing takes appending to joining for all paths that have segments, whatever their history. -/
theorem parse_join_iff :
    (∀ a b : String, (parse (a ++ "." ++ b)).segments = (parse a).segments ++ (parse b).segments ↔
      a ≠ "" ∧ b ≠ "" ∧ a.toList.getLast? ≠ some '^') ∧
    ∀ {p q : Path}, p.Built → q.Built → p.isEmpty = false → q.isEmpty = false →
      (p.append q).print = p.print ++ "." ++ q.print := by
  refine ⟨parseSegments_join_iff, fun {p q} hp hq hpe hqe => ?_⟩
  calc (p.append q).print = printSegments (p.segments ++ q.segments) := print_ofSegments _
    _ = printSegments p.segments ++ "." ++ printSegments q.segments :=
      printSegments_append (segments_ne_nil hpe) (segments_ne_nil hqe)
    _ = p.print ++ "." ++ q.print := by rw [hp.isFaithful, hq.isFaithful]

/-- A path that was made and one that was read: what is written for the two has one segment less
than they have. -/
theorem parse_join_iff_made_and_read :
    ((ofSegments [some "a^"]).append (parse "b")).print = "a^" ++ "." ++ "b" ∧
      (parse ("a^" ++ "." ++ "b")).segments ≠
        ((ofSegments [some "a^"]).append (parse "b")).segments := by
  have hgiven : Given.ofSegments [.text "a^"] = .ok (ofSegments [some "a^"]) := rfl
  have hparsed : (Given.text "b").parsed = .ok (parse "b") := rfl
  exact ⟨parse_join_iff.2 (.given hgiven) (.parsed hparsed) rfl rfl, by decide +kernel⟩

end Path

end Dotpath
