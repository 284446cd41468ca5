import Mathlib.Data.List.Induction
import ScriptSurvey.Proofs.Lexical.Rescan

/-!
# How runs end

A reader that looks back from a place in the code sees characters, not runs. With more code behind it on
its line, a run says by its last character what it is: a comment ends in `/` and a string in its
delimiter. So a character that is neither is a run by itself, and a word of such characters is one run
for each of them.

Backwards through a comment or a string, a word ends at the latest at the delimiter in front.
-/

namespace ScriptSurvey

namespace Body

/-- A block comment that has its end ends in `/`. -/
theorem getLast?_ofBlock {t : Text} (h : (ofBlock t).closed = true) :
    (ofBlock t).text.getLast? = some '/' := by
  fun_induction ofBlock t with
  | case1 => exact absurd h Bool.false_ne_true
  | case2 t => rfl
  | case3 c t _ ih =>
      show (c :: (ofBlock t).text).getLast? = some '/'
      rw [List.getLast?_cons, ih h]
      rfl

/-- A string with more behind it on its line ends in its delimiter. -/
theorem getLast?_ofLiteral {kind : LiteralKind} {t u : Text} {x : Char}
    (h : (ofLiteral kind t).rest = x :: u) (hx : x ≠ '\n') :
    (ofLiteral kind t).text.getLast? = some kind.delimiter := by
  induction t using literal_induction kind with
  | nil => exact absurd h (by simp [ofLiteral])
  | lone => exact absurd h (by simp [ofLiteral])
  | escape c t ih =>
      rw [ofLiteral_escape] at h ⊢
      show ('\\' :: c :: (ofLiteral kind t).text).getLast? = _
      rw [List.getLast?_cons, List.getLast?_cons, ih h]
      rfl
  | delimiter t =>
      rw [ofLiteral_delimiter]
      rfl
  | lineFeed t hk =>
      rw [ofLiteral_lineFeed hk] at h
      exact absurd (List.cons.inj h).1.symm hx
  | inside c t hc hd hn ih =>
      rw [ofLiteral_inside hc hd hn] at h ⊢
      show (c :: (ofLiteral kind t).text).getLast? = _
      rw [List.getLast?_cons, ih h]
      rfl

end Body

theorem LiteralKind.isPlain_delimiter (kind : LiteralKind) :
    Text.isPlain kind.delimiter = false := by
  cases kind <;> decide

namespace Run

/-- The character that a run ends in when there is more code on its line. -/
def terminator : Run → Char
  | code c => c
  | comment _ _ => '/'
  | literal kind _ => kind.delimiter

theorem getLast?_text {r : Run} {x : Char} {rs : List Run} (h : Stable (r :: code x :: rs))
    (hx : x ≠ '\n') : r.text.getLast? = some r.terminator := by
  obtain ⟨c, t, hr, hrest, -⟩ := h.exists_first
  replace hrest : (Step.first c t).rest = x :: join rs := hrest
  have hs := Step.isFirst c t
  generalize Step.first c t = s at hs hr hrest
  subst hr
  cases hs with
  | line t =>
      -- a line comment goes on up to the end of the line
      have hhead := List.head?_dropWhile_not (· != '\n') t
      rw [show t.dropWhile (· != '\n') = x :: join rs from hrest] at hhead
      exact absurd (by simpa using hhead) hx
  | block t =>
      have hclosed : (Body.ofBlock t).closed = true := by
        by_contra ho
        have hnil := Body.ofBlock_rest_of_open (by simpa using ho)
        exact absurd (hnil.symm.trans hrest) (by simp)
      show ('/' :: '*' :: (Body.ofBlock t).text).getLast? = some '/'
      rw [List.getLast?_cons, List.getLast?_cons, Body.getLast?_ofBlock hclosed]
      rfl
  | literal kind t =>
      show (kind.delimiter :: (Body.ofLiteral kind t).text).getLast? = some kind.delimiter
      rw [List.getLast?_cons, Body.getLast?_ofLiteral hrest hx]
      rfl
  | code _ _ => rfl

theorem eq_code_of_isPlain {r : Run} (h : Text.isPlain r.terminator = true) :
    r = code r.terminator := by
  cases r with
  | code c => rfl
  | comment kind t => exact absurd (show Text.isPlain '/' = true from h) (by decide)
  | literal kind t => exact absurd h (by simp [terminator, kind.isPlain_delimiter])

/-- A plain character in front of code on its line is a run. -/
theorem exists_eq_append_code {rs : List Run} {d e : Char} (h : Stable (rs ++ [code d]))
    (hd : d ≠ '\n') (he : Text.isPlain e = true) {t : Text} (hjoin : join rs = t ++ [e]) :
    ∃ q, rs = q ++ [code e] ∧ join q = t := by
  rcases List.eq_nil_or_concat rs with rfl | ⟨q, r, rfl⟩
  · exact absurd hjoin (by simp)
  · rw [List.concat_eq_append] at h hjoin ⊢
    have hpair : Stable ([r] ++ [code d]) := by
      rw [List.append_assoc] at h
      exact h.of_append_right
    obtain ⟨s, hs⟩ := List.getLast?_eq_some_iff.mp (getLast?_text hpair hd)
    rw [join_append, join_cons, join_nil, List.append_nil, hs, ← List.append_assoc] at hjoin
    obtain ⟨hfront, hlast⟩ := List.append_inj' hjoin rfl
    obtain rfl := (List.cons.inj hlast).1
    have hr := eq_code_of_isPlain he
    -- the run is its last character, so nothing of it stands in front
    have hnil : s = [] := by
      have hlength := congrArg List.length hs
      rw [hr] at hlength
      simpa [text] using hlength
    rw [hnil, List.append_nil] at hfront
    exact ⟨q, by rw [← hr], hfront⟩

/-- **A word in front of code is one run for each of its characters.** -/
theorem exists_eq_append_map_code {rs : List Run} {d : Char} (h : Stable (rs ++ [code d]))
    (hd : d ≠ '\n') {t w : Text} (hw : ∀ c ∈ w, Text.isPlain c = true ∧ c ≠ '\n')
    (hjoin : join rs = t ++ w) : ∃ q, rs = q ++ w.map code ∧ join q = t := by
  -- from the end of the word, each character is the code that the one before it stands in front of
  induction w using List.reverseRecOn generalizing rs d with
  | nil => exact ⟨rs, by simp, by simpa using hjoin⟩
  | append_singleton w e ih =>
      obtain ⟨hplain, hne⟩ := hw e (by simp)
      rw [← List.append_assoc] at hjoin
      obtain ⟨p, rfl, hp⟩ := exists_eq_append_code h hd hplain hjoin
      obtain ⟨q, rfl, hq⟩ := ih h.of_append_left hne (fun c hc => hw c (by simp [hc])) hp
      exact ⟨q, by simp, hq⟩

/-- A comment or a string begins with a character that is not plain. -/
theorem exists_text_eq_cons {r : Run} {rs : List Run} (h : Stable (r :: rs))
    (hr : r.mode.isCode = false) : ∃ o s, r.text = o :: s ∧ Text.isPlain o = false := by
  obtain ⟨c, t, rfl, -, -⟩ := h.exists_first
  have hs := Step.isFirst c t
  generalize Step.first c t = s at hs hr
  cases hs with
  | line t => exact ⟨'/', _, rfl, by decide⟩
  | block t => exact ⟨'/', _, rfl, by decide⟩
  | literal kind t => exact ⟨kind.delimiter, _, rfl, kind.isPlain_delimiter⟩
  | code _ _ => exact absurd hr Bool.noConfusion

end Run

end ScriptSurvey
