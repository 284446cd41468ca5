import ScriptSurvey.Proofs.Lexical.ByOffset

/-!
# A search that counts in a word

The search for a closing bracket counts in a signed word of 32 bits. It finds the partner of an opening
bracket as long as the word holds the count. At the bracket that makes the count `2 ^ 31`, it wraps around
to less than zero, and the search ends there, at an opening bracket.

So the partner is found exactly if fewer than `2 ^ 31` brackets are open at once on the way to it. Each of
them takes two bytes, and so no text of fewer than `2 ^ 32` bytes has as many: where offsets are words of
32 bits, the search finds the partner of every bracket.

The search for a word at the outermost level does not end there. It goes on from zero, and takes a word that
stands in as many brackets for one at the outermost level.
-/

namespace ScriptSurvey

open Run Nesting BracketStack Cursor

namespace ByOffset

variable {t : Text} {a inner rs : List Run} {d d' : Nat} {e : Bool}

/-- A count in a word goes through runs that close what they open, if it holds the brackets that are open
at once. -/
theorem closeFrom?_int32_append (h : runs t = a ++ (inner ++ rs)) (he : e = (outermost.after a).afterEquals)
    (hopen : openBehind d e inner = some d') (hdeep : (Nesting.mk d e).deepest inner + 1 < 2 ^ 31) :
    closeFrom? int32 t (d + 1) (codeOffsets (Text.size (join a)) (inner ++ rs)) =
      closeFrom? int32 t (d' + 1) (codeOffsets (Text.size (join (a ++ inner))) rs) := by
  induction inner generalizing a d e with
  | nil =>
      obtain rfl := Option.some.inj hopen
      rw [List.append_nil]
      rfl
  | cons r inner ih =>
      rw [List.cons_append] at h ⊢
      obtain ⟨k, hwithin, hrest⟩ := openBehind_cons hopen
      have hruns : runs t = (a ++ [r]) ++ (inner ++ rs) := by rw [h]; simp
      have hnext : r.isChar '=' = (outermost.after (a ++ [r])).afterEquals := by
        rw [after_concat]
        rfl
      have hdeeper := deepest_behind_le ⟨d, e⟩ r inner
      rw [behind_of_within hwithin] at hdeeper
      have hk := depth_le_deepest ⟨k, r.isChar '='⟩ inner
      dsimp only at hk
      have hkept : int32 (k + 1) = k + 1 := keeps_int32 (m := k + 1) (by omega) _ (by omega) (by omega)
      rw [closeFrom?_cons h he hwithin hkept, ih hruns hnext hrest (by omega)]
      simp

/-- **A count in a word** ends among runs that open more brackets at once than it holds. -/
theorem exists_closeFrom?_int32 (h : runs t = a ++ (inner ++ rs))
    (he : e = (outermost.after a).afterEquals) (hopen : openBehind d e inner = some d')
    (hd : d + 1 < 2 ^ 31) (hdeep : 2 ^ 31 ≤ (Nesting.mk d e).deepest inner + 1) :
    ∃ p < Text.size (join (a ++ inner)),
      closeFrom? int32 t (d + 1) (codeOffsets (Text.size (join a)) (inner ++ rs)) = some (some p) := by
  -- it passes runs while the word holds the count, and ends at the first one at which it does not
  induction inner generalizing a d e with
  | nil => exact absurd hd (Nat.not_lt.mpr hdeep)
  | cons r inner ih =>
      rw [List.cons_append] at h ⊢
      obtain ⟨k, hwithin, hrest⟩ := openBehind_cons hopen
      rw [deepest, behind_of_within hwithin] at hdeep
      dsimp only at hdeep
      by_cases hk : k + 1 < 2 ^ 31
      · have hruns : runs t = (a ++ [r]) ++ (inner ++ rs) := by rw [h]; simp
        have hnext : r.isChar '=' = (outermost.after (a ++ [r])).afterEquals := by
          rw [after_concat]
          rfl
        have hkept : int32 (k + 1) = k + 1 := keeps_int32 (m := k + 1) hk _ (by omega) (by omega)
        obtain ⟨p, hp, hends⟩ := ih hruns hnext hrest hk (by omega)
        refine ⟨p, ?_, ?_⟩
        · rwa [List.append_assoc, List.singleton_append] at hp
        · rw [closeFrom?_cons h he hwithin hkept, hends]
      · have hdelta := add_delta_of_within hwithin
        have hshift : r.shift e ≠ .stays := by
          intro hstays
          rw [hstays] at hdelta
          have hzero : Shift.stays.delta = 0 := rfl
          omega
        obtain ⟨c, rfl⟩ : ∃ c, r = code c := by
          cases hcode : r.mode.isCode with
          | true => exact exists_eq_code hcode
          | false => exact absurd (shift_of_not_code hcode e) hshift
        have hcount : (d : Int) + 1 + ((code c).shift e).delta = 2 ^ 31 := by
          have hone : ((code c).shift e).delta ≤ 1 := by cases (code c).shift e <;> decide
          omega
        refine ⟨Text.size (join a), ?_, ?_⟩
        · have hpos := size_pos_of_shift hshift
          rw [join_append, Text.size_append, join_cons, Text.size_append]
          omega
        · rw [codeOffsets_cons_code, closeFrom?, shiftAt?_eq h, ← he, Option.bind_some,
            hcount, if_pos (by decide)]

/-- **The search in a word** finds the closing bracket exactly if the word holds the brackets that are open
at once in front of it. -/
theorem closing?_int32_iff {x : Char} {r : Run} {after : List Run}
    (h : runs t = a ++ code x :: (inner ++ r :: after)) (hx : isOpeningBracket x = true)
    (hopen : openBehind 0 false inner = some 0)
    (hfound : enclosed (inner ++ r :: after) = some (inner, after)) :
    closing? int32 t (Text.size (join a)) =
        some (some (Text.size (join a) + 1 + Text.size (join inner))) ↔
      outermost.deepest inner + 1 < 2 ^ 31 := by
  have hruns : runs t = (a ++ [code x]) ++ (inner ++ r :: after) := by rw [h]; simp
  have hequals : false = (outermost.after (a ++ [code x])).afterEquals := by
    rw [after_concat]
    exact (isChar_of_isOpeningBracket hx).symm
  have hsize : Text.size (join ((a ++ [code x]) ++ inner)) =
      Text.size (join a) + 1 + Text.size (join inner) := by
    rw [join_append, Text.size_append, size_join_concat]
    exact congrArg (_ + · + _) (utf8Size_of_isOpeningBracket hx)
  rw [closing?_eq_closeFrom? (by decide) h hx, ← hsize]
  constructor
  · intro hend
    by_contra hmany
    obtain ⟨p, hp, hends⟩ := exists_closeFrom?_int32 (d := 0) hruns hequals hopen (by decide) (by
      show 2 ^ 31 ≤ outermost.deepest inner + 1
      omega)
    have hsame := hends.symm.trans hend
    rw [Option.some_inj, Option.some_inj] at hsame
    omega
  · intro hfits
    have hthrough := closeFrom?_int32_append (d := 0) hruns hequals hopen hfits
    have hbehind : runs t = ((a ++ [code x]) ++ inner) ++ r :: after := by rw [h]; simp
    have hflag : (Nesting.after ⟨0, false⟩ inner).afterEquals =
        (outermost.after ((a ++ [code x]) ++ inner)).afterEquals := by
      have hstart : outermost.after (a ++ [code x]) =
          ⟨(outermost.after (a ++ [code x])).depth, false⟩ := by rw [hequals]
      rw [after_append, hstart]
      exact afterEquals_after _ _ _ _
    -- nothing is open any more, so the run behind closes the bracket
    have hcloses : (r.shift (Nesting.after ⟨0, false⟩ inner).afterEquals).within 0 = none := by
      rw [enclosed, enclosedFrom_append hopen, Run.enclosedFrom] at hfound
      split at hfound
      · next hnone => exact hnone
      · obtain ⟨⟨p, q⟩, hp, heq⟩ := Option.map_eq_some_iff.mp hfound
        obtain ⟨⟨p', q'⟩, -, heq'⟩ := Option.map_eq_some_iff.mp hp
        have hfront := (Prod.mk.inj heq).1
        rw [← (Prod.mk.inj heq').1] at hfront
        exact absurd hfront (by simp)
    exact hthrough.trans (closeFrom?_cons_of_none hbehind hflag hcloses (by decide))

end ByOffset

/-! ## Parentheses in parentheses -/

namespace Text

/-- A text in `n` pairs of parentheses. -/
def nested (n : Nat) (t : Text) : Text :=
  List.replicate n '(' ++ (t ++ List.replicate n ')')

variable {t : Text} (h : ∀ c ∈ t, isPlain c = true)

include h

theorem isPlain_of_mem_nested (n : Nat) : ∀ c ∈ nested n t, isPlain c = true := by
  intro c hc
  rcases List.mem_append.mp hc with hc | hc
  · rw [List.eq_of_mem_replicate hc]
    decide
  rcases List.mem_append.mp hc with hc | hc
  · exact h c hc
  · rw [List.eq_of_mem_replicate hc]
    decide

theorem runs_nested (n : Nat) :
    runs (nested n t) =
      List.replicate n (code '(') ++ (t.map code ++ List.replicate n (code ')')) := by
  rw [runs_of_isPlain (isPlain_of_mem_nested h n), nested, List.map_append, List.map_append,
    List.map_replicate, List.map_replicate]

end Text

section Nested

variable {opened : List Run} {n d : Nat}

theorem walk_replicate_opening :
    walk ⟨opened, false⟩ (List.replicate n (code '(')) =
      some ⟨List.replicate n (code '(') ++ opened, false⟩ := by
  induction n generalizing opened with
  | zero => rfl
  | succ n ih =>
      show walk ⟨code '(' :: opened, false⟩ (List.replicate n (code '(')) = _
      rw [ih, List.replicate_succ', List.append_assoc, List.singleton_append]

theorem walk_replicate_closing :
    walk ⟨List.replicate n (code '(') ++ opened, false⟩ (List.replicate n (code ')')) =
      some ⟨opened, false⟩ := by
  induction n with
  | zero => rfl
  | succ n ih => exact ih

/-- Parentheses in parentheses close what they open, about a text that does. -/
theorem walk_nested {t : Text} (h : ∀ c ∈ t, Text.isPlain c = true)
    (ht : ∀ opened, walk ⟨opened, false⟩ (t.map code) = some ⟨opened, false⟩) :
    empty.walk (runs (t.nested n)) = some ⟨[], false⟩ := by
  rw [Text.runs_nested h n, walk_append, empty, walk_replicate_opening, Option.bind_some, walk_append,
    ht, Option.bind_some, walk_replicate_closing]

theorem size_join_replicate {c : Char} (hc : c.utf8Size = 1) :
    Text.size (join (List.replicate n (code c))) = n := by
  induction n with
  | zero => rfl
  | succ n ih =>
      rw [List.replicate_succ, join_cons, Text.size_append, ih, Nat.add_comm]
      exact congrArg (n + ·) hc

theorem openBehind_replicate : openBehind d false (List.replicate n (code '(')) = some (d + n) := by
  induction n generalizing d with
  | zero => rfl
  | succ n ih =>
      show openBehind (d + 1) false (List.replicate n (code '(')) = _
      rw [ih, Nat.add_assoc, Nat.add_comm 1]

theorem deepest_replicate_le : (Nesting.mk d false).deepest (List.replicate n (code '(')) ≤ d + n := by
  have h := deepest_le ⟨d, false⟩ (List.replicate n (code '('))
  rwa [size_join_replicate (by decide)] at h

/-- **One bracket more than a word counts**: the search from the first one ends at the last one. -/
theorem closing?_int32_nested {n : Nat} (hn : n = 2 ^ 31) :
    ByOffset.closing? ByOffset.int32 (Text.nested n []) 0 = some (some (n - 1)) := by
  obtain ⟨k, rfl⟩ : ∃ k, n = k + 2 := ⟨n - 2, by omega⟩
  have hruns : runs (Text.nested (k + 2) []) =
      [code '('] ++ (List.replicate k (code '(') ++ code '(' :: List.replicate (k + 2) (code ')')) := by
    rw [Text.runs_nested (by simp), List.replicate_succ, List.replicate_succ']
    simp
  have hdeep : (Nesting.mk 0 false).deepest (List.replicate k (code '(')) ≤ 0 + k :=
    deepest_replicate_le
  have hlast : runs (Text.nested (k + 2) []) =
      ([code '('] ++ List.replicate k (code '(')) ++ code '(' :: List.replicate (k + 2) (code ')') := by
    rw [hruns, List.append_assoc]
  have hsize : Text.size (join ([code '('] ++ List.replicate k (code '('))) = k + 1 := by
    rw [join_append, Text.size_append, size_join_replicate (by decide), Nat.add_comm]
    rfl
  have hcount : ((0 + k : Nat) : Int) + 1 + Shift.opens.delta = 2 ^ 31 := by
    show ((0 + k : Nat) : Int) + 1 + 1 = _
    omega
  have hfirst : ByOffset.closing? ByOffset.int32 (Text.nested (k + 2) []) 0 = _ :=
    ByOffset.closing?_eq_closeFrom? (a := []) (by decide) hruns (by decide)
  have hthrough := ByOffset.closeFrom?_int32_append (d := 0) (e := false) hruns rfl
    openBehind_replicate (by omega)
  rw [hfirst]
  refine hthrough.trans ?_
  rw [hsize, ByOffset.codeOffsets_cons_code, ByOffset.closeFrom?, ← hsize,
    ByOffset.shiftAt?_eq hlast, Option.bind_some]
  show (if ByOffset.int32 (((0 + k : Nat) : Int) + 1 + Shift.opens.delta) ≤ 0 then _ else _) = _
  rw [hcount, if_pos (by decide), hsize]
  rfl

/-- The partner of the first parenthesis is the last one. -/
theorem isPartner_nested (n : Nat) :
    ∃ ps, bracketPairs? (Text.nested (n + 1) []) = some ps ∧
      (⟨0, 1⟩, code '(') ∈ (ofText (Text.nested (n + 1) [])).scan.1 ∧
      IsPartner (Text.nested (n + 1) []) ps 0 '(' (2 * n + 1) := by
  have hplain : ∀ c ∈ ([] : Text), Text.isPlain c = true := by simp
  have hinner : IsEven (runs (Text.nested n [])) :=
    openBehind_of_walk (walk_nested (n := n) hplain fun _ => rfl)
  have hruns : runs (Text.nested (n + 1) []) =
      [] ++ code '(' :: (runs (Text.nested n []) ++ code ')' :: []) := by
    rw [Text.runs_nested hplain, Text.runs_nested hplain, List.replicate_succ, List.replicate_succ']
    simp
  have hopen : (⟨0, 1⟩, code '(') ∈ (ofText (Text.nested (n + 1) [])).scan.1 := by
    rw [scan_ofText, hruns]
    exact List.mem_cons_self
  obtain ⟨ps, hps⟩ := Option.isSome_iff_exists.mp
    (isSome_bracketPairs?_iff.mpr ⟨_, walk_nested (n := n + 1) hplain fun _ => rfl⟩)
  obtain ⟨a, inner, y, after, -, -, -, -, hpartner⟩ := exists_enclosed_isPartner hps hopen (by decide)
  have hfound := closingOffset_of_mem hps ((hpartner.paired _).mpr rfl)
  have hlast : closingOffset (Text.nested (n + 1) []) 0 = some (2 * n + 1) := by
    refine (closingOffset_eq hruns (by decide)).trans ?_
    rw [(hinner.closedBy (by simp)).enclosed, Option.map_some, Text.runs_nested hplain, join_append,
      Text.size_append, size_join_replicate (by decide), List.map_nil, List.nil_append,
      size_join_replicate (by decide), join_nil, Text.size_nil]
    exact congrArg some (by omega)
  rw [Option.some.inj (hfound.symm.trans hlast)] at hpartner
  exact ⟨ps, hps, hopen, hpartner⟩

end Nested

namespace ByOffset

section Found

variable {count : Int → Int} {t word : Text} {w c : Char} {a rs : List Run} {n d : Nat}

/-- A character that a word does not begin with is passed. -/
theorem foundFrom?_cons_of_ne (h : runs t = a ++ code c :: rs) (hc : c ≠ w) (depth : Int) :
    foundFrom? count (w :: word) t depth (codeOffsets (Text.size (join a)) (code c :: rs)) =
      foundFrom? count (w :: word) t
        (max (count (depth + ((code c).shift (outermost.after a).afterEquals).delta)) 0)
        (codeOffsets (Text.size (join (a ++ [code c]))) rs) := by
  have hnone : List.isPrefixOf? (w :: word) (join (code c :: rs)) = none := by
    show List.isPrefixOf? (w :: word) (c :: join rs) = none
    rw [List.isPrefixOf?, if_neg (beq_iff_eq.not.mpr (Ne.symm hc))]
  rw [codeOffsets_cons_code, foundFrom?, between?_from h, Option.bind_some, shiftAt?_eq h,
    Option.bind_some, hnone, ← size_join_concat]
  simp

/-- **A word that does not stand among the runs** is not found, however the brackets are counted. -/
theorem foundFrom?_of_not_isInfix (hword : ∀ c ∈ word, Text.isPlain c = true) (h : runs t = a ++ rs)
    (hnone : ¬word.map code <:+: rs) (depth : Int) :
    foundFrom? count word t depth (codeOffsets (Text.size (join a)) rs) = some [] := by
  induction rs generalizing a depth with
  | nil => rfl
  | cons r rs ih =>
      have hruns : runs t = (a ++ [r]) ++ rs := by rw [h]; simp
      have hrest := ih hruns fun hstands => hnone (hstands.trans (List.suffix_cons r rs).isInfix)
      rw [size_join_concat] at hrest
      cases hcode : r.mode.isCode with
      | false =>
          rw [codeOffsets_cons_of_not hcode]
          exact hrest depth
      | true =>
          obtain ⟨c, rfl⟩ := exists_eq_code hcode
          have hstable := Run.stable_runs t
          rw [h] at hstable
          have hdrop : dropCode? word (code c :: rs) = none := by
            by_contra hsome
            obtain ⟨after, hafter⟩ := Option.ne_none_iff_exists'.mp hsome
            rw [eq_of_dropCode? hafter] at hnone
            exact hnone (List.prefix_append _ _).isInfix
          rw [codeOffsets_cons_code, foundFrom?, between?_from h, Option.bind_some, shiftAt?_eq h,
            Option.bind_some, hrest, isPrefixOf?_join hword hstable.of_append_right, hdrop]
          simp

/-- At the outermost level, a word is found where it stands. -/
theorem foundFrom?_cons_of_word (hword : ∀ c ∈ w :: word, Text.isPlain c = true)
    (h : runs t = a ++ code w :: (word.map code ++ rs))
    (hrest : ¬(w :: word).map code <:+: word.map code ++ rs) :
    foundFrom? count (w :: word) t 0
        (codeOffsets (Text.size (join a)) (code w :: (word.map code ++ rs))) =
      some [Text.size (join a)] := by
  have hbehind : runs t = (a ++ [code w]) ++ (word.map code ++ rs) := by rw [h]; simp
  have hstable := Run.stable_runs t
  rw [h] at hstable
  have hdrop : dropCode? (w :: word) (code w :: (word.map code ++ rs)) = some rs :=
    dropCode?_append (w :: word) rs
  rw [codeOffsets_cons_code, foundFrom?, between?_from h, Option.bind_some, shiftAt?_eq h,
    Option.bind_some, ← size_join_concat, foundFrom?_of_not_isInfix hword hbehind hrest,
    isPrefixOf?_join hword hstable.of_append_right, hdrop]
  rfl

/-- Opening brackets are counted as long as the word holds their number. -/
theorem foundFrom?_int32_replicate (hw : '(' ≠ w)
    (h : runs t = a ++ (List.replicate n (code '(') ++ rs)) (hd : d + n < 2 ^ 31) :
    foundFrom? int32 (w :: word) t d
        (codeOffsets (Text.size (join a)) (List.replicate n (code '(') ++ rs)) =
      foundFrom? int32 (w :: word) t ((d + n : Nat) : Int)
        (codeOffsets (Text.size (join (a ++ List.replicate n (code '(')))) rs) := by
  induction n generalizing a d with
  | zero => simp
  | succ n ih =>
      rw [List.replicate_succ, List.cons_append] at h ⊢
      have hruns : runs t = (a ++ [code '(']) ++ (List.replicate n (code '(') ++ rs) := by rw [h]; simp
      have hcount : max (int32 ((d : Int) + Shift.opens.delta)) 0 = ((d + 1 : Nat) : Int) := by
        have hone : (d : Int) + Shift.opens.delta = ((d + 1 : Nat) : Int) := rfl
        rw [hone, keeps_int32 (m := d + 1) (by omega) _ (by omega) (by omega)]
        omega
      rw [foundFrom?_cons_of_ne h hw]
      show foundFrom? int32 (w :: word) t (max (int32 ((d : Int) + Shift.opens.delta)) 0) _ = _
      rw [hcount, ih hruns (by omega)]
      simp [Nat.add_assoc, Nat.add_comm 1]

/-- **One bracket more than a word counts**: what stands behind it is taken for the outermost level. -/
theorem found?_int32_replicate (hn : n = 2 ^ 31) (hword : ∀ c ∈ w :: word, Text.isPlain c = true)
    (hw : '(' ≠ w) (hc : c ≠ w) (hstays : (code c).shift false = .stays)
    (h : runs t = code c :: (List.replicate n (code '(') ++ code w :: (word.map code ++ rs)))
    (hrest : ¬(w :: word).map code <:+: word.map code ++ rs) :
    found? int32 (w :: word) t =
      some [Text.size (join (code c :: List.replicate n (code '(')))] := by
  obtain ⟨k, rfl⟩ : ∃ k, n = k + 1 := ⟨n - 1, by omega⟩
  have hlist : code c :: (List.replicate (k + 1) (code '(') ++ code w :: (word.map code ++ rs)) =
      [] ++ code c :: (List.replicate k (code '(') ++ code '(' :: code w :: (word.map code ++ rs)) := by
    rw [List.replicate_succ']
    simp
  have hfront : code c :: List.replicate (k + 1) (code '(') =
      (([] ++ [code c]) ++ List.replicate k (code '(')) ++ [code '('] := by
    rw [List.replicate_succ']
    simp
  rw [hlist] at h
  have hopens : runs t = ([] ++ [code c]) ++ (List.replicate k (code '(') ++
      code '(' :: code w :: (word.map code ++ rs)) := h
  have hlast : runs t = (([] ++ [code c]) ++ List.replicate k (code '(')) ++
      code '(' :: code w :: (word.map code ++ rs) := by rw [hopens, ← List.append_assoc]
  have hat : runs t = ((([] ++ [code c]) ++ List.replicate k (code '(')) ++ [code '(']) ++
      code w :: (word.map code ++ rs) := by rw [hlast]; simp
  have hzero : max (int32 (0 + ((code c).shift false).delta)) 0 = ((0 : Nat) : Int) := by
    rw [hstays]
    decide
  have hwraps : max (int32 (((0 + k : Nat) : Int) + Shift.opens.delta)) 0 = 0 := by
    have hcount : ((0 + k : Nat) : Int) + Shift.opens.delta = 2 ^ 31 := by
      show ((0 + k : Nat) : Int) + 1 = _
      omega
    rw [hcount]
    decide
  have hfirst : foundFrom? int32 (w :: word) t 0 _ = _ := foundFrom?_cons_of_ne h hc 0
  have hmany : foundFrom? int32 (w :: word) t ((0 : Nat) : Int) _ = _ :=
    foundFrom?_int32_replicate hw hopens (by omega)
  have hwrapped : foundFrom? int32 (w :: word) t _ _ = _ :=
    foundFrom?_cons_of_ne hlast hw ((0 + k : Nat) : Int)
  have hfound : foundFrom? int32 (w :: word) t 0 _ = _ := foundFrom?_cons_of_word hword hat hrest
  rw [found?, codeAhead_ofText, h, hfront]
  refine hfirst.trans ?_
  show foundFrom? int32 (w :: word) t (max (int32 (0 + ((code c).shift false).delta)) 0) _ = _
  rw [hzero, hmany, hwrapped]
  show foundFrom? int32 (w :: word) t (max (int32 (((0 + k : Nat) : Int) + Shift.opens.delta)) 0) _ = _
  rw [hwraps]
  exact hfound

end Found

end ByOffset

/-- **The search finds the partner of each opening bracket**, in all texts whose brackets have pairs. Where
it counts in a word, it does so exactly if fewer than `2 ^ 31` brackets are open at once from the bracket on
to its partner, and that is so in every text of fewer than `2 ^ 32` bytes. -/
theorem exists_isPartner {t : Text} {ps : List (Nat × Nat)} (h : bracketPairs? t = some ps)
    {s : Span} {x : Char} (hx : (s, code x) ∈ (ofText t).scan.1) (hopen : isOpeningBracket x = true) :
    ∃ c, IsPartner t ps s.start x c ∧
      (∀ inner, (Span.mk (s.start + 1) c).slice? t = some inner →
        (ByOffset.closing? ByOffset.int32 t s.start = some (some c) ↔ inner.depth + 1 < 2 ^ 31)) ∧
      (Text.size t < 2 ^ 32 →
        ByOffset.closing? ByOffset.int32 t s.start = some (some c) ∧ closingOffset t s.start = some c) := by
  obtain ⟨a, inner, y, after, hruns, hstart, hlevel, hfound, hpartner⟩ :=
    exists_enclosed_isPartner h hx hopen
  rw [hstart] at hpartner ⊢
  have hone := utf8Size_of_isOpeningBracket hopen
  have hstable : Stable inner :=
    (Run.stable_runs t).of_isInfix ⟨a ++ [code x], code y :: after, by rw [hruns]; simp⟩
  have hiff := ByOffset.closing?_int32_iff hruns hopen hlevel hfound
  refine ⟨_, hpartner, fun between hbetween => ?_, fun hsize => ⟨hiff.mpr ?_, ?_⟩⟩
  · have hslice := slice?_behind hruns hone
    rw [hslice] at hbetween
    obtain rfl := Option.some.inj hbetween
    rw [Text.depth_join hstable]
    exact hiff
  · have hdeep := two_mul_deepest_le hlevel
    have hwhole : Text.size t = Text.size (join a) + (1 + (Text.size (join inner) +
        Text.size (join (code y :: after)))) := by
      conv => lhs; rw [← join_runs t, hruns]
      rw [join_append, join_cons, join_append, Text.size_append, Text.size_append, Text.size_append]
      exact congrArg (_ + ·) (congrArg (· + _) hone)
    have hlast := y.utf8Size_pos
    rw [join_cons, Text.size_append] at hwhole
    have hlast : Text.size (Run.text (code y)) = y.utf8Size := rfl
    show (Nesting.mk 0 false).deepest inner + 1 < 2 ^ 31
    omega
  · rw [closingOffset_eq hruns hopen, hfound]
    rfl

/-- Brackets of all kinds about an arrow, and some that are in a string and in a comment. -/
theorem exists_isPartner_mixed :
    let t : Text := "f<\x7b a: (x) => ['>'] /* \x7d */ \x7d>".toList
    let pairs : List (Nat × Nat) := [(7, 9), (14, 18), (2, 28), (1, 29)]
    (bracketPairs? t = some pairs ∧ (⟨1, 2⟩, code '<') ∈ (ofText t).scan.1 ∧
      isOpeningBracket '<' = true) ∧
    ∃ c, IsPartner t pairs 1 '<' c ∧ ByOffset.closing? ByOffset.int32 t 1 = some (some c) ∧
      closingOffset t 1 = some c := by
  intro t pairs
  have hpairs : bracketPairs? t = some pairs := by decide +kernel
  have hopen : (⟨1, 2⟩, code '<') ∈ (ofText t).scan.1 := by decide +kernel
  obtain ⟨c, hpartner, -, hfound⟩ := exists_isPartner hpairs hopen (by decide)
  exact ⟨⟨hpairs, hopen, by decide⟩, c, hpartner, hfound (by decide)⟩

/-- `2 ^ 31` parentheses in one another: for the partner of the first one, the search in a word takes the
last of those that open. -/
theorem closing?_int32_innermost :
    ∃ ps, bracketPairs? (Text.nested (2 ^ 31) []) = some ps ∧
      (⟨0, 1⟩, code '(') ∈ (ofText (Text.nested (2 ^ 31) [])).scan.1 ∧
      IsPartner (Text.nested (2 ^ 31) []) ps 0 '(' (2 ^ 32 - 1) ∧
      ByOffset.closing? ByOffset.int32 (Text.nested (2 ^ 31) []) 0 = some (some (2 ^ 31 - 1)) := by
  obtain ⟨ps, hps, hopen, hpartner⟩ := isPartner_nested (2 ^ 31 - 1)
  exact ⟨ps, hps, hopen, hpartner, closing?_int32_nested rfl⟩

end ScriptSurvey
