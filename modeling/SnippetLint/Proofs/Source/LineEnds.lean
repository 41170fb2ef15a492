import SnippetLint.Proofs.Source.Masking
import SnippetLint.Proofs.Source.Reading
import SnippetLint.Proofs.Text.Bytes
import SnippetLint.Proofs.Text.Padding

/-! How a source text with carriage returns before its line feeds is read. Only a `//` comment goes
on over a carriage return; all else has the two characters where it had the one. -/
namespace SnippetLint.Source
open Text

namespace Lexeme

/-- What a reader splits off, with the line ends of both parts. -/
def crlfBoth (r : List Char × List Char) : List Char × List Char := (crlf r.1, crlf r.2)

theorem blockBody?_crlf (cs : List Char) :
    blockBody? (crlf cs) = (blockBody? cs).map crlfBoth := by
  fun_induction blockBody? cs with
  | case1 => rfl
  | case2 rest => simp [crlf_cons, blockBody?, crlfBoth]
  | case3 c cs hend ih =>
    by_cases hc : c = '\n'
    · subst hc
      have hreturn : ∀ rest, '\r' = '*' → '\n' :: crlf cs = '/' :: rest → False :=
        fun _ h => absurd h (by decide)
      have hlineFeed : ∀ rest, '\n' = '*' → crlf cs = '/' :: rest → False :=
        fun _ h => absurd h (by decide)
      rw [crlf_lineFeed, blockBody?_cons hreturn, blockBody?_cons hlineFeed, ih]
      simp only [Option.map_map]
      rfl
    · have hend' : ∀ rest, c = '*' → crlf cs = '/' :: rest → False := by
        intro rest hs hr
        cases cs with
        | nil => exact List.cons_ne_nil _ _ hr.symm
        | cons d ds =>
          by_cases hd : d = '\n'
          · subst hd
            exact absurd (List.cons.inj hr).1 (by decide)
          · rw [crlf_cons hd] at hr
            exact hend ds hs (by rw [(List.cons.inj hr).1])
      rw [crlf_cons hc, blockBody?_cons hend', ih, Option.map_map, Option.map_map]
      congr 1
      funext r
      simp [crlfBoth, crlf_cons hc]

theorem quotedBody?_crlf {quote : Char} (hq : isQuote quote = true) (cs : List Char) :
    quotedBody? quote (crlf cs) = (quotedBody? quote cs).map crlfBoth := by
  have hr : '\r' ≠ quote := (ne_of_isQuote hq rfl).symm
  have hl : '\n' ≠ quote := (ne_of_isQuote hq rfl).symm
  have hs : '\\' ≠ quote := (ne_of_isQuote hq rfl).symm
  have hrn : '\r' = '\n' → quote = '`' := fun h => absurd h (by decide)
  -- A line end in the crlf text: the carriage return is passed over, be it escaped or not.
  have hreturn (ds : List Char) : quotedBody? quote ('\r' :: ds) =
      (quotedBody? quote ds).map fun r => ('\r' :: r.1, r.2) :=
    quotedBody?_cons hr (by decide) hrn ds
  fun_induction quotedBody? quote cs with
  | case1 => rfl
  | case2 cs =>
    simp [crlfBoth, crlf_cons hl.symm, quotedBody?_quote]
  | case3 c cs hc hn =>
    simp only [Bool.and_eq_true, decide_eq_true_eq, bne_iff_ne] at hn
    obtain ⟨rfl, hk⟩ := hn
    rw [crlf_lineFeed, hreturn, quotedBody?_lineFeed hl hk]
    rfl
  | case4 => exact quotedBody?_backslash hs.symm
  | case5 d ds hd hc hn =>
    simp only [Bool.and_eq_true, decide_eq_true_eq, bne_iff_ne] at hd
    obtain ⟨rfl, hk⟩ := hd
    rw [crlf_cons (by decide), crlf_lineFeed, quotedBody?_escape hs.symm hrn,
      quotedBody?_lineFeed hl hk]
    rfl
  | case6 d ds hd hc hn ih =>
    simp only [Bool.and_eq_true, decide_eq_true_eq, bne_iff_ne, not_and, not_not] at hd
    rw [crlf_cons (by decide)]
    by_cases hdn : d = '\n'
    · subst hdn
      rw [crlf_lineFeed, quotedBody?_escape hs.symm hrn,
        quotedBody?_cons hl (by decide) hd, ih]
      cases quotedBody? quote ds <;> simp [crlfBoth, crlf_cons]
    · rw [crlf_cons hdn, quotedBody?_escape hs.symm hd, ih]
      cases quotedBody? quote ds <;> simp [crlfBoth, crlf_cons, hdn]
  | case7 c cs hc hn hb ih =>
    simp only [Bool.and_eq_true, decide_eq_true_eq, bne_iff_ne, not_and, not_not] at hn
    by_cases hcn : c = '\n'
    · subst hcn
      rw [crlf_lineFeed, hreturn, quotedBody?_cons hl (by decide) hn, ih]
      cases quotedBody? quote cs <;> simp [crlfBoth]
    · rw [crlf_cons hcn, quotedBody?_cons hc hb hn, ih]
      cases quotedBody? quote cs <;> simp [crlfBoth, crlf_cons, hcn]

end Lexeme

/-- The lexemes of a text beside those of the text with carriage returns. -/
inductive Recut : List Lexeme → List Lexeme → Prop where
  | nil : Recut [] []
  | lineFeed {ls ms : List Lexeme} (h : Recut ls ms) :
      Recut (.plain '\n' :: ls) (.plain '\r' :: .plain '\n' :: ms)
  | plain {c : Char} {ls ms : List Lexeme} (hc : c ≠ '\n') (h : Recut ls ms) :
      Recut (.plain c :: ls) (.plain c :: ms)
  | lastComment {text : List Char} (ht : '\n' ∉ text) :
      Recut [.lineComment text] [.lineComment text]
  | lineComment {text : List Char} {ls ms : List Lexeme} (ht : '\n' ∉ text) (h : Recut ls ms) :
      Recut (.lineComment text :: .plain '\n' :: ls)
        (.lineComment (text ++ ['\r']) :: .plain '\n' :: ms)
  | blockComment {ls ms : List Lexeme} (text : List Char) (h : Recut ls ms) :
      Recut (.blockComment text :: ls) (.blockComment (crlf text) :: ms)
  | literal {quote : Char} {ls ms : List Lexeme} (hq : quote ≠ '\n') (body : List Char)
      (h : Recut ls ms) :
      Recut (.literal (quote :: (body ++ [quote])) :: ls)
        (.literal (quote :: (crlf body ++ [quote])) :: ms)

@[simp] theorem lexemes_lineFeed (cs : List Char) :
    lexemes ('\n' :: cs) = .plain '\n' :: lexemes cs := by
  rw [lexemes_cons]
  rfl

@[simp] theorem lexemes_return (cs : List Char) :
    lexemes ('\r' :: cs) = .plain '\r' :: lexemes cs := by
  rw [lexemes_cons]
  rfl

theorem recut_lineComment (ds : List Char)
    (ih : Recut (lexemes (Lexeme.next '/' ('/' :: ds)).2)
      (lexemes (crlf (Lexeme.next '/' ('/' :: ds)).2))) :
    Recut (lexemes ('/' :: '/' :: ds)) (lexemes (crlf ('/' :: '/' :: ds))) := by
  have hsplit := List.takeWhile_append_dropWhile (p := (· != '\n')) (l := ds)
  have hd := List.head?_dropWhile_not (· != '\n') ds
  have hb : '\n' ∉ ds.takeWhile (· != '\n') := by
    intro h
    simpa using List.mem_takeWhile_imp h
  generalize ds.takeWhile (· != '\n') = body at hb hsplit
  generalize ds.dropWhile (· != '\n') = rest at hd hsplit
  have hc : '\n' ∉ '/' :: '/' :: body := by simpa using hb
  subst hsplit
  rw [crlf_cons (by decide), crlf_cons (by decide), crlf_append, crlf_of_not_mem hb, lexemes_cons,
    lexemes_cons]
  cases rest with
  | nil =>
    rw [crlf_nil, Lexeme.next_lineComment hb (Or.inl rfl), lexemes_nil]
    exact .lastComment hc
  | cons e rest =>
    obtain rfl : e = '\n' := by simpa using hd
    have hb' : '\n' ∉ body ++ ['\r'] := by simpa using hb
    have hend : body ++ crlf ('\n' :: rest) = (body ++ ['\r']) ++ '\n' :: crlf rest := by simp
    rw [Lexeme.next_lineComment hb (Or.inr rfl), crlf_lineFeed, lexemes_return,
      lexemes_lineFeed, lexemes_lineFeed] at ih
    rw [hend, Lexeme.next_lineComment hb (Or.inr rfl), Lexeme.next_lineComment hb' (Or.inr rfl),
      lexemes_lineFeed, lexemes_lineFeed]
    cases ih with
    | lineFeed h => exact .lineComment hc h

theorem recut_slash (cs : List Char)
    (ih : Recut (lexemes (Lexeme.next '/' cs).2) (lexemes (crlf (Lexeme.next '/' cs).2))) :
    Recut (lexemes ('/' :: cs)) (lexemes (crlf ('/' :: cs))) := by
  have hplain (h : Lexeme.next '/' cs = (.plain '/', cs))
      (h' : Lexeme.next '/' (crlf cs) = (.plain '/', crlf cs)) :
      Recut (lexemes ('/' :: cs)) (lexemes (crlf ('/' :: cs))) := by
    rw [h] at ih
    rw [crlf_cons (by decide), lexemes_cons, lexemes_cons, h, h']
    exact .plain (by decide) ih
  rcases cs with _ | ⟨d, ds⟩
  · exact hplain rfl rfl
  by_cases hs : d = '/'
  · subst hs
    exact recut_lineComment ds ih
  by_cases hstar : d = '*'
  · subst hstar
    have hcrlf := Lexeme.blockBody?_crlf ds
    cases hb : Lexeme.blockBody? ds with
    | none =>
      rw [hb] at hcrlf
      exact hplain (Lexeme.next_slash hs fun _ => hb) (Lexeme.next_slash hs fun _ => hcrlf)
    | some r =>
      rw [hb] at hcrlf
      have ht : '/' :: '*' :: crlf r.1 = crlf ('/' :: '*' :: r.1) := by simp [crlf_cons]
      rw [crlf_cons (by decide), crlf_cons (by decide), lexemes_cons, lexemes_cons]
      simp only [Lexeme.next, hb, hcrlf, Option.map_some, Lexeme.crlfBoth, if_pos, ht] at ih ⊢
      exact .blockComment _ ih
  · refine hplain (Lexeme.next_slash hs fun h => absurd h hstar) ?_
    by_cases hd : d = '\n'
    · subst hd
      rfl
    · rw [crlf_cons hd]
      exact Lexeme.next_slash hs fun h => absurd h hstar

theorem recut_quote {c : Char} (hq : Lexeme.isQuote c = true) (cs : List Char)
    (ih : Recut (lexemes (Lexeme.next c cs).2) (lexemes (crlf (Lexeme.next c cs).2))) :
    Recut (lexemes (c :: cs)) (lexemes (crlf (c :: cs))) := by
  have hs : c ≠ '/' := Lexeme.ne_of_isQuote hq rfl
  have hn : c ≠ '\n' := Lexeme.ne_of_isQuote hq rfl
  have hcrlf := Lexeme.quotedBody?_crlf hq cs
  rw [crlf_cons hn, lexemes_cons, lexemes_cons]
  cases hb : Lexeme.quotedBody? c cs with
  | none =>
    rw [hb] at hcrlf
    simp only [Lexeme.next, if_neg hs, if_pos hq, hb, hcrlf, Option.map_none] at ih ⊢
    exact .plain hn ih
  | some r =>
    obtain ⟨text, rest⟩ := r
    rw [hb] at hcrlf
    obtain ⟨body, rfl, -, -⟩ :=
      (Lexeme.quotedBody?_eq_some_iff (Lexeme.ne_backslash_of_isQuote hq)).mp hb
    have ht : crlf (body ++ [c]) = crlf body ++ [c] := by rw [crlf_append, crlf_cons hn, crlf_nil]
    simp only [Lexeme.next, if_neg hs, if_pos hq, hb, hcrlf, Option.map_some, Lexeme.crlfBoth,
      ht] at ih ⊢
    exact .literal hn body ih

theorem recut_lexemes (code : List Char) : Recut (lexemes code) (lexemes (crlf code)) := by
  induction code using lexemes.induct with
  | case1 =>
    rw [crlf_nil, lexemes_nil]
    exact .nil
  | case2 c cs ih =>
    by_cases hn : c = '\n'
    · subst hn
      rw [crlf_lineFeed, lexemes_return, lexemes_lineFeed, lexemes_lineFeed]
      exact .lineFeed ih
    by_cases hs : c = '/'
    · subst hs
      exact recut_slash cs ih
    by_cases hq : Lexeme.isQuote c = true
    · exact recut_quote hq cs ih
    · rw [Bool.not_eq_true] at hq
      rw [Lexeme.next_plain hs hq] at ih
      rw [crlf_cons hn, lexemes_cons, lexemes_cons, Lexeme.next_plain hs hq,
        Lexeme.next_plain hs hq]
      exact .plain hn ih

theorem padded_map_blankOut_crlf {a b : List Char} (h : Padded true a b) (text : List Char) :
    Padded true (text.map blankOut ++ a) ((crlf text).map blankOut ++ b) := by
  induction text with
  | nil => exact h
  | cons c cs ih =>
    by_cases hc : c = '\n'
    · subst hc
      exact .pad rfl (atLineEnd_cons.mpr rfl) (.cons (fun _ => rfl) ih)
    · rw [crlf_cons hc]
      exact .cons (fun _ => rfl) ih

theorem Recut.padded {ls ms : List Lexeme} (h : Recut ls ms) :
    Padded true (ls.flatMap Lexeme.masked) (ms.flatMap Lexeme.masked) := by
  induction h with
  | nil => exact .nil
  | lineFeed h ih => exact .pad rfl (atLineEnd_cons.mpr rfl) (.cons (fun _ => rfl) ih)
  | plain hc h ih => exact .cons (fun _ => rfl) ih
  | lastComment ht => exact .refl _
  | @lineComment text ls ms ht h ih =>
    have hend : Padded true ('\n' :: ls.flatMap Lexeme.masked)
        (' ' :: '\n' :: ms.flatMap Lexeme.masked) :=
      .pad rfl (atLineEnd_cons.mpr rfl) (.cons (fun _ => rfl) ih)
    simpa [Lexeme.masked, blankOut] using hend.append_left (text.map blankOut)
  | blockComment text h ih => exact padded_map_blankOut_crlf ih text
  | @literal quote ls ms hq body h ih =>
    have hend : Padded true (quote :: ls.flatMap Lexeme.masked)
        (quote :: ms.flatMap Lexeme.masked) := .cons (fun _ => rfl) ih
    have hbody := padded_map_blankOut_crlf hend body
    simpa [Lexeme.masked, blankInside] using Padded.cons (c := quote) (fun _ => rfl) hbody

/-- Masking leaves of the carriage returns what counts for nothing at the end of a line. -/
theorem padded_mask (code : List Char) : Padded true (mask code) (mask (crlf code)) :=
  (recut_lexemes code).padded

/-- The positions of the `//` comments among lexemes that start at `p`. -/
def commentPositions (p : Position) : List Lexeme → List Position
  | [] => []
  | .lineComment text :: ls => p :: commentPositions (text.foldl Position.advance p) ls
  | l :: ls => commentPositions (l.text.foldl Position.advance p) ls

theorem map_ofByte_lineCommentsFrom (before : List Char) (ls : List Lexeme) :
    (lineCommentsFrom (byteLength before) ls).map
        (Position.ofByte (before ++ ls.flatMap Lexeme.text)) =
      commentPositions (.after before) ls := by
  induction ls generalizing before with
  | nil => rfl
  | cons l ls ih =>
    have hrest := ih (before ++ l.text)
    rw [byteLength_append, List.append_assoc, Position.after, List.foldl_append] at hrest
    rw [List.flatMap_cons]
    cases l with
    | plain c => exact hrest
    | blockComment text => exact hrest
    | literal text => exact hrest
    | lineComment text =>
      rw [lineCommentsFrom, List.map_cons, Position.ofByte_byteLength]
      exact congrArg _ hrest

theorem map_ofByte_lineComments (code : List Char) :
    (lineComments code).map (Position.ofByte code) = commentPositions .first (lexemes code) := by
  have h := map_ofByte_lineCommentsFrom [] (lexemes code)
  rwa [flatMap_text_lexemes, List.nil_append] at h

theorem advance_return (p : Position) : (p.advance '\r').advance '\n' = p.advance '\n' := rfl

theorem foldl_advance_crlf (p : Position) (text : List Char) :
    (crlf text).foldl Position.advance p = text.foldl Position.advance p := by
  induction text generalizing p with
  | nil => rfl
  | cons c cs ih =>
    by_cases hc : c = '\n'
    · subst hc
      exact ih _
    · rw [crlf_cons hc]
      exact ih _

theorem Recut.commentPositions_eq {ls ms : List Lexeme} (h : Recut ls ms) (p : Position) :
    commentPositions p ls = commentPositions p ms := by
  induction h generalizing p with
  | nil => rfl
  | lineFeed h ih => exact ih _
  | plain hc h ih => exact ih _
  | lastComment ht => rfl
  | lineComment ht h ih =>
    simp only [commentPositions, Lexeme.text, List.foldl_append, List.foldl_cons, List.foldl_nil,
      advance_return, ih]
  | blockComment text h ih =>
    simp only [commentPositions, Lexeme.text, foldl_advance_crlf, ih]
  | literal hq body h ih =>
    simp only [commentPositions, Lexeme.text, List.foldl_cons, List.foldl_append,
      foldl_advance_crlf, ih]

/-- The `//` comments stay where they are. -/
theorem positions_lineComments_crlf (code : List Char) :
    (lineComments (crlf code)).map (Position.ofByte (crlf code)) =
      (lineComments code).map (Position.ofByte code) := by
  rw [map_ofByte_lineComments, map_ofByte_lineComments]
  exact ((recut_lexemes code).commentPositions_eq _).symm

end SnippetLint.Source
