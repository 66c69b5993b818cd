import ClassHighlight.ClassString.Template
import ClassHighlight.Proofs.Text.Place

/-!
# Static runs

Splitting the body of a template literal loses nothing, so each static run stands in the body at
its offset.
-/

namespace ClassHighlight

/-- The pieces of a template literal make up its body. -/
theorem TemplatePiece.flatMap_split (t : Text) : (split t).flatMap text = t := by
  fun_induction split t with
  | case1 t fixedText hfixed =>
    -- there is no interpolation
    have hsplit := splitFixed_append false t
    rw [hfixed, List.append_nil] at hsplit
    simpa [text] using hsplit
  | case2 t fixedText c rest hfixed body after hbody ih =>
    have hsplit := splitFixed_append false t
    rw [hfixed, (append_of_splitInterpolation? hbody).1] at hsplit
    rw [List.flatMap_cons, List.flatMap_cons, ih]
    exact hsplit
  | case3 t fixedText c rest hfixed hbody =>
    -- the interpolation is never closed and takes the rest
    have hsplit := splitFixed_append false t
    rw [hfixed] at hsplit
    simpa [text] using hsplit

namespace StaticRun

/-- A static run among pieces stands in the text that they make up. -/
theorem hasAt_of_mem_ofPieces {before : Text} {pieces : List TemplatePiece} {run : StaticRun}
    (h : run ∈ ofPieces (Text.byteLength before) pieces) :
    (before ++ pieces.flatMap TemplatePiece.text).HasAt run.offset run.text := by
  induction pieces generalizing before with
  | nil => cases h
  | cons piece rest ih =>
    -- the runs of later pieces stand behind the first piece
    have hlater : run ∈ ofPieces (Text.byteLength before + Text.byteLength piece.text) rest →
        (before ++ (piece :: rest).flatMap TemplatePiece.text).HasAt run.offset run.text := by
      intro hin
      rw [← Text.byteLength_append] at hin
      have hat := ih hin
      rwa [List.append_assoc] at hat
    cases piece with
    | fixed t =>
      rw [ofPieces] at h
      split at h
      · exact hlater h
      · rcases List.mem_cons.1 h with rfl | h
        · exact ⟨before, rest.flatMap TemplatePiece.text, by simp [TemplatePiece.text], rfl⟩
        · exact hlater h
    | interpolation t => exact hlater h

/-- A static run stands in the body of the literal. -/
theorem hasAt_of_mem_all {t : Text} {run : StaticRun} (h : run ∈ all t) :
    t.HasAt run.offset run.text := by
  have hat := @hasAt_of_mem_ofPieces [] _ run h
  rwa [TemplatePiece.flatMap_split] at hat

end StaticRun

end ClassHighlight
