import SnippetLint.Proofs.Pass.LineEnds
import SnippetLint.Proofs.Source.LineComment
import SnippetLint.Proofs.Source.Uncommented
import SnippetLint.Proofs.Text.RealPosition

/-! What `//` comments are to the passes over a text: nothing, but for the pass that reports them,
which reports each one. -/
namespace SnippetLint
open Text Source

namespace Source

theorem le_of_mem_commentPositions {p q : Position} {ls : List Lexeme}
    (h : q ∈ commentPositions p ls) : p ≤ q := by
  induction ls generalizing p with
  | nil => exact absurd h List.not_mem_nil
  | cons l ls ih =>
    cases l with
    | lineComment t =>
      rcases List.mem_cons.mp h with rfl | h
      · exact le_rfl
      · exact (p.le_foldl_advance t).trans (ih h)
    | plain c => exact (p.le_foldl_advance [c]).trans (ih h)
    | blockComment t => exact (p.le_foldl_advance t).trans (ih h)
    | literal t => exact (p.le_foldl_advance t).trans (ih h)

theorem line_le {p q : Position} (h : p ≤ q) : p.line ≤ q.line := by
  rcases Position.le_iff.mp h with h | h
  · exact h.le
  · exact h.1.le

/-- After a `//` comment comes the end of its line, so the next one is on a later line. -/
theorem pairwise_commentPositions (p : Position) (code : List Char) :
    (commentPositions p (lexemes code)).Pairwise (·.line < ·.line) := by
  induction code using lexemes_induction generalizing p with
  | nil =>
    rw [lexemes_nil]
    exact .nil
  | cons c cs l rest hnext hs ih =>
    rw [lexemes_of_next hnext]
    cases l with
    | plain d => exact ih _
    | blockComment t => exact ih _
    | literal t => exact ih _
    | lineComment t =>
      refine .cons (fun q hq => ?_) (ih _)
      rcases (hs.of_isLineComment rfl).2.2 with rfl | hr
      · rw [lexemes_nil] at hq
        exact absurd hq List.not_mem_nil
      · obtain ⟨r, rfl⟩ := List.head?_eq_some_iff.mp hr
        rw [lexemes_lineFeed] at hq
        have hlater : q ∈ commentPositions ((t.foldl Position.advance p).advance '\n')
            (lexemes r) := hq
        calc p.line ≤ (t.foldl Position.advance p).line := line_le (p.le_foldl_advance t)
          _ < ((t.foldl Position.advance p).advance '\n').line := Nat.lt_succ_self _
          _ ≤ q.line := line_le (le_of_mem_commentPositions hlater)

end Source

namespace CDialect

/-- Positions on lines of their own are all kept. -/
theorem firstOfLines_eq_self {ps : List Position} (h : ps.Pairwise (·.line < ·.line))
    {last : Option ℕ} (hlast : ∀ n ∈ last, ∀ p ∈ ps, n < p.line) : firstOfLines last ps = ps := by
  induction ps generalizing last with
  | nil => rfl
  | cons p ps ih =>
    obtain ⟨hp, hps⟩ := List.pairwise_cons.mp h
    have hnew : ¬ (last == some p.line) = true := by
      rw [beq_iff_eq]
      rintro rfl
      exact absurd (hlast _ rfl p List.mem_cons_self) (Nat.lt_irrefl _)
    have hrest : ∀ n ∈ some p.line, ∀ q ∈ ps, n < q.line := by
      intro n hn q hq
      rw [← Option.some.inj hn]
      exact hp q hq
    rw [firstOfLines, if_neg hnew, ih hps hrest]

/-- What is said of a `//` comment. -/
def commentWarning (p : Position) : Diagnostic :=
  .warning p "C++ style comments (//) are not standard in C89/C90"

theorem lineComments_eq_map (code : List Char) :
    lineComments code = (commentPositions .first (lexemes code)).map commentWarning := by
  have hpairwise := pairwise_commentPositions .first code
  rw [lineComments, map_ofByte_lineComments, firstOfLines_eq_self hpairwise]
  · rfl
  · exact fun n hn => absurd hn (Option.not_mem_none n)

theorem commentPositions_eq (code : List Char) :
    commentPositions .first (lexemes code) =
      ((tokens code).filter (·.kind = .lineComment)).map fun t => .after (code.take t.start) := by
  rw [← map_ofByte_lineComments, lineComments_eq, List.map_map]
  refine List.map_congr_left fun t _ => ?_
  have h := Position.ofByte_byteLength (code.take t.start) (code.drop t.start)
  rwa [List.take_append_drop] at h

end CDialect

/-- A text without its `//` comments has none, and the passes find in it what they find in the
text. The comments are reported one by one, each on a line of its own. -/
theorem line_comments_are_only_reported (code : List Char) :
    Source.lineComments (withoutLineComments code) = [] ∧
      (∀ table, Spelling.typos table (withoutLineComments code) = Spelling.typos table code) ∧
      Semicolon.missingInScript (withoutLineComments code) = Semicolon.missingInScript code ∧
      Semicolon.missingInBlock (withoutLineComments code) = Semicolon.missingInBlock code ∧
      UndefinedName.find (withoutLineComments code) = UndefinedName.find code ∧
      (∀ declarationsFirst prototypes,
        CDialect.violations (withoutLineComments code) declarationsFirst prototypes =
          CDialect.violations code declarationsFirst prototypes) ∧
      (∃ ts, Tokenised code 0 ts ∧
        CDialect.lineComments code = (ts.filter (·.kind = .lineComment)).map fun t =>
          .warning (.after (code.take t.start))
            "C++ style comments (//) are not standard in C89/C90") ∧
      (CDialect.lineComments code).Pairwise (·.position.line < ·.position.line) := by
  have hm := padded_withoutLineComments code
  refine ⟨lineComments_withoutLineComments code, fun table => Spelling.typos_of_padded hm,
    Semicolon.missingInScript_of_padded hm, Semicolon.missingInBlock_of_padded hm,
    UndefinedName.find_of_padded hm, fun _ _ => CDialect.violations_of_padded hm _ _,
    ⟨tokens code, tokenised_tokens code, ?_⟩, ?_⟩
  · rw [CDialect.lineComments_eq_map, CDialect.commentPositions_eq, List.map_map]
    rfl
  · rw [CDialect.lineComments_eq_map, List.pairwise_map]
    exact pairwise_commentPositions .first code

end SnippetLint
