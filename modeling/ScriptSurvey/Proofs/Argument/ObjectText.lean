import Mathlib.Data.List.Forall2
import ScriptSurvey.Proofs.Argument.Meaning
import ScriptSurvey.Proofs.Argument.ReadBack
import ScriptSurvey.Proofs.Lexical.Rescan

/-!
# Object literals as texts

An object literal is a list in braces. Its properties are a key and a value with a colon between them,
an identifier alone, or a spread. The reader finds each of them and what it gives, in the order in which
they were written, as far as brackets of all kinds come out even in each of them: a `<` that compares
opens a bracket for the reader, and hides the comma behind it.
-/

namespace ScriptSurvey

open Run Nesting

namespace Run

theorem LosesTrivia.isEven {p q : List Run} (h : LosesTrivia p q) (hq : IsEven q) : IsEven p := by
  obtain ⟨a, b, rfl, ha, hb, -⟩ := h
  have hlevel : Level a := .of_isFlat fun r hr => isFlat_of_isTrivia (ha r hr)
  rw [IsEven, hlevel.even.1.openBehind_append, hlevel.even.2, hq.openBehind_append]
  exact openBehind_of_isFlat (fun r hr => isFlat_of_isTrivia (hb r hr)) 0 _

/-- A list of even pieces is even. -/
theorem Lists.isEven {ps : List (List Run)} {rs : List Run} (h : Lists ps rs)
    (he : ∀ p ∈ ps, IsEven p) : IsEven rs := by
  induction h with
  | none trivia => exact openBehind_of_isFlat (fun r hr => isFlat_of_isTrivia (trivia r hr)) 0 _
  | last padded _ _ => exact padded.isEven (he _ List.mem_cons_self)
  | more padded _ _ _ _ ih =>
      have hfront := padded.isEven (he _ List.mem_cons_self)
      rw [IsEven, hfront.openBehind_append, openBehind_flat rfl]
      exact ih fun p hp => he p (List.mem_cons_of_mem _ hp)

end Run

namespace Element

/-- A property as it is written: its key, and the element that it gives to the key, which is that of the
text behind the colon. -/
inductive Spells : Text × Element → List Run → Prop where
  | pair {key gap value : List Run} (trimmed : Trimmed key) (even : IsEven key)
      (lacksColon : Lacks [':'] key) (noSpread : isSpread (Run.join key) = false)
      (trivia : ∀ r ∈ gap, r.isTrivia = true) :
      Spells (Run.join key, parseElement (Run.join value)) (key ++ (gap ++ code ':' :: value))
  | shorthand {name : Text} (identifier : Text.isIdentifier name = true) :
      Spells (name, leaf name) (runs name)
  | spread {operand : List Run} :
      Spells ('.' :: '.' :: '.' :: Run.join operand, leaf ('.' :: '.' :: '.' :: Run.join operand))
        (code '.' :: code '.' :: code '.' :: operand)

/-- A text that is an object literal with the given properties, and trivia around it. -/
def SpellsObject (ps : List (Text × Element)) (t : Text) : Prop :=
  ∃ inner pieces, LosesTrivia (runs t) (code '\x7b' :: (inner ++ [code '\x7d'])) ∧
    Lists pieces inner ∧ List.Forall₂ Spells ps pieces ∧ ∀ p ∈ pieces, IsEven p

/-- What a property gives to its key. -/
def entryOf (p : Text × Option (List Run)) : Text × Element :=
  (p.1, (p.2.map ofRuns).getD (leaf p.1))

/-- Three dots in front of a key are in the key. -/
theorem isSpread_of_dropCode? {key rest : List Run} {r : Run} (hr : r ≠ code '.') {after : List Run}
    (h : dropCode? ['.', '.', '.'] (key ++ r :: rest) = some after) :
    isSpread (Run.join key) = true := by
  have heq := eq_of_dropCode? h
  rcases List.append_eq_append_iff.mp heq with ⟨x, hkey, hx⟩ | ⟨x, rfl, -⟩
  · cases x with
    | nil =>
        rw [List.append_nil] at hkey
        rw [← hkey]
        rfl
    | cons y x =>
        obtain ⟨rfl, -⟩ := List.cons.inj hx
        have hmem : r ∈ ['.', '.', '.'].map code := by
          rw [hkey]
          exact List.mem_append_right key List.mem_cons_self
        simp only [List.map_cons, List.map_nil, List.mem_cons, List.not_mem_nil, or_false,
          or_self] at hmem
        exact absurd hmem hr
  · rfl

/-- A property whose key is no spread does not begin with three dots. -/
theorem dropCode?_of_not_isSpread {key gap : List Run} (hkey : isSpread (Run.join key) = false)
    (hgap : ∀ r ∈ gap, r.isTrivia = true) (value : List Run) :
    dropCode? ['.', '.', '.'] (key ++ (gap ++ code ':' :: value)) = none := by
  obtain ⟨r, rest, hrest, hr⟩ : ∃ r rest, gap ++ code ':' :: value = r :: rest ∧ r ≠ code '.' := by
    cases gap with
    | nil => exact ⟨code ':', value, rfl, by decide⟩
    | cons g gap =>
        refine ⟨g, _, rfl, ?_⟩
        rintro rfl
        exact absurd (hgap _ List.mem_cons_self) (by decide)
  rw [hrest]
  by_contra hsome
  obtain ⟨after, hafter⟩ := Option.ne_none_iff_exists'.mp hsome
  have := isSpread_of_dropCode? hr hafter
  rw [hkey] at this
  exact Bool.noConfusion this

/-- Each property is read as its key and what it gives to it. -/
theorem entryOf_of_spells {p : Text × Element} {rs : List Run} (h : Spells p rs)
    (hs : Stable rs) : entryOf (Form.ofProperty rs) = p := by
  cases h with
  | @pair key gap value trimmed even lacksColon noSpread trivia =>
      have hdots := dropCode?_of_not_isSpread noSpread trivia value
      have hcolon : Lacks [':'] (key ++ gap) := by
        rw [Lacks, cutAtFirst_append_of_none lacksColon, cutAtFirst_of_isTrivia rfl trivia]
        rfl
      have hzero : (outermost.after (key ++ gap)).depth = 0 := by
        rw [after_append, depth_after_of_isFlat fun r hr => isFlat_of_isTrivia (trivia r hr),
          outermost, even.after]
      have htrim : Run.trim (key ++ gap) = key := by
        have := trim_padded (a := []) trimmed (by simp) trivia
        rwa [List.nil_append] at this
      rw [← List.append_assoc] at hdots hs ⊢
      -- the colon is code of its own, so the value is scanned as it was in the text
      have hvalue : Stable ([code ':'] ++ value) := hs.of_append_right
      have hruns : runs (Run.join value) = value := hvalue.of_append_right
      rw [ofProperty_colon hdots hcolon hzero, htrim, parseElement, hruns]
      rfl
  | @shorthand name hid =>
      have hdots := dropCode?_key (.inl hid) []
      have hcolon : Lacks [':'] (runs name) := (Text.IsWord.of_isIdentifier hid).bare.lacks rfl []
      rw [List.append_nil] at hdots
      rw [Lacks] at hcolon
      simp [entryOf, Form.ofProperty, hdots, Run.cutAtFirst, hcolon, join_runs]
  | spread => rfl

theorem map_entryOf_of_spells {ps : List (Text × Element)} {pieces : List (List Run)}
    (h : List.Forall₂ Spells ps pieces) (hs : ∀ p ∈ pieces, Stable p) :
    (pieces.map Form.ofProperty).map entryOf = ps := by
  induction h with
  | nil => rfl
  | cons hspells _ ih =>
      rw [List.map_cons, List.map_cons, entryOf_of_spells hspells (hs _ List.mem_cons_self),
        ih fun p hp => hs p (List.mem_cons_of_mem _ hp)]

/-- An object literal is read as its properties in the order in which they were written. -/
theorem parseElement_of_spells {ps : List (Text × Element)} {t : Text} (h : SpellsObject ps t) :
    parseElement t = ofProperties ps := by
  obtain ⟨inner, pieces, hpadded, hlists, hspells, heven⟩ := h
  have hclosed : ClosedBy '\x7d' inner := (hlists.isEven heven).closedBy (by simp)
  have htrimmed := trimmed_bracketed pair_curly inner
  have htrim : Run.trim (runs t) = Run.trim (code '\x7b' :: (inner ++ [code '\x7d'])) := by
    rw [hpadded.trim_eq htrimmed.ne_nil, trim_of_trimmed htrimmed]
  have hinner : inner <:+: runs t := by
    obtain ⟨a, b, hruns, -⟩ := hpadded
    exact ⟨a ++ [code '\x7b'], [code '\x7d'] ++ b, by rw [hruns]; simp⟩
  have hstable : ∀ p ∈ pieces, Stable p := by
    intro p hp
    rw [← hlists.splitAtCommas] at hp
    exact (stable_runs t).of_isInfix ((isInfix_of_mem_splitAtCommas hp).trans hinner)
  rw [parseElement, ofRuns_of_trim_eq htrim, ofRuns_eq, Form.of_object hclosed,
    hlists.splitAtCommas, ← map_entryOf_of_spells hspells hstable]
  rfl

/-- **The properties of an object mean what they meant in the text**, if no property surrounds another
one of its key, and none surrounds a spread or is a spread that surrounds one. As far as different
texts spell different keys, the meaning is lost where a spread surrounds or is surrounded, for some
choice of the keys that the operands have. -/
theorem meaning_parseElement {ps : List (Text × Element)} {t : Text} (h : SpellsObject ps t) :
    ∃ entries, parseElement t = object entries ∧
      (∀ {K : Type} [DecidableEq K] (name : Text → K),
        (∀ s u, Surrounds s u (ps.map Prod.fst) →
          isSpread s = false ∧ isSpread u = false ∧ name s ≠ name u) →
        ∀ has k, meaning name has entries k = meaning name has ps k) ∧
      ∀ {K : Type} [DecidableEq K] (name : Text → K), Function.Injective name →
        ((∀ has k, meaning name has entries k = meaning name has ps k) ↔
          ∀ s u, Surrounds s u (ps.map Prod.fst) → isSpread s = false ∧ isSpread u = false) := by
  refine ⟨collapse ps, parseElement_of_spells h, fun name hname => meaning_collapse hname, ?_⟩
  intro K _ name hname
  constructor
  · intro hmeaning s u hs
    by_contra hspread
    rw [not_and_or, Bool.not_eq_false, Bool.not_eq_false] at hspread
    obtain ⟨has, k, hne⟩ := exists_meaning_ne hname hs hspread
    exact hne (hmeaning has k)
  · intro hplain
    refine meaning_collapse fun s u hs => ?_
    obtain ⟨hs', hu⟩ := hplain s u hs
    exact ⟨hs', hu, fun he => hs.ne (hname he)⟩

/-- A key of one character with a colon right behind it. -/
theorem spells_colon {c : Char} (hflat : (code c).isFlat = true) (htrivia : (code c).isTrivia = false)
    (hkey : isSpread (Run.join [code c]) = false) (hcolon : c ≠ ':') (value : Text) :
    Spells ([c], parseElement value) (code c :: code ':' :: value.map code) := by
  have hlevel : Level [code c] := .flat hflat .nil
  have htrimmed : Trimmed [code c] := ⟨by simp, by simpa using htrivia, by simpa using htrivia⟩
  have hlacks : Lacks [':'] [code c] :=
    lacks_flat hflat (dropCode?_of_ne (fun h => hcolon (Run.code.inj h)) []) (lacks_nil _ _)
  have := @Spells.pair [code c] [] (value.map code) htrimmed hlevel.even.1 hlacks hkey (by simp)
  rwa [join_map_code] at this

/-- Properties with a comma and a space between them, and a space inside each brace. -/
theorem spellsObject_of_segments {ps : List (Text × Element)} (pieces : List (List Run)) {t : Text}
    (hruns : runs t = code '\x7b' :: (([code ' '] ++ (joinPieces pieces ++ [code ' '])) ++
      [code '\x7d']))
    (h : AreSegments pieces) (hspells : List.Forall₂ Spells ps pieces)
    (heven : ∀ p ∈ pieces, IsEven p) : SpellsObject ps t := by
  have hspace : ∀ r ∈ [code ' '], r.isTrivia = true := by decide
  refine ⟨_, pieces, ⟨[], [], ?_, by simp, by simp, fun _ => trimmed_bracketed pair_curly _⟩,
    h.lists hspace hspace, hspells, heven⟩
  rw [List.nil_append, List.append_nil, hruns]

/-- The values of `b` come one behind the other, with a spread between them that comes again. -/
theorem meaning_repeated_spread :
    let t : Text := "\x7b b: 1, ...s, b: f(2, 3), ...s \x7d".toList
    let dots : Text := ['.', '.', '.', 's']
    let ps : List (Text × Element) :=
      [(['b'], parseElement [' ', '1']), (dots, leaf dots),
        (['b'], parseElement [' ', 'f', '(', '2', ',', ' ', '3', ')']), (dots, leaf dots)]
    SpellsObject ps t ∧ ∃ entries, parseElement t = object entries ∧
      ∀ has k, meaning id has entries k = meaning id has ps k := by
  intro t dots ps
  let pieces : List (List Run) :=
    [[code 'b', code ':', code ' ', code '1'], [code '.', code '.', code '.', code 's'],
      [code 'b', code ':', code ' ', code 'f', code '(', code '2', code ',', code ' ', code '3',
        code ')'], [code '.', code '.', code '.', code 's']]
  have hkey : isSpread (Run.join [code 'b']) = false := rfl
  have hspread : Spells (dots, leaf dots) [code '.', code '.', code '.', code 's'] :=
    @Spells.spread [code 's']
  have hspells : SpellsObject ps t :=
    spellsObject_of_segments pieces (by decide +kernel) (by decide +kernel)
      (.cons (spells_colon rfl rfl hkey (by decide) _) (.cons hspread
        (.cons (spells_colon rfl rfl hkey (by decide) _) (.cons hspread .nil)))) (by decide +kernel)
  have hnone : ∀ s ∈ ps.map Prod.fst, ∀ u ∈ ps.map Prod.fst, ¬Surrounds s u (ps.map Prod.fst) := by
    decide +kernel
  obtain ⟨entries, hparse, hmeaning, -⟩ := meaning_parseElement hspells
  exact ⟨hspells, entries, hparse, hmeaning id fun s u hs => absurd hs (hnone s hs.mem u hs.1)⟩

/-- A value that comes again behind a spread takes its first place, in front of the spread. -/
theorem meaning_lost_behind_spread :
    let t : Text := "\x7b a: 1, ...s, a: 2 \x7d".toList
    let dots : Text := ['.', '.', '.', 's']
    let ps : List (Text × Element) :=
      [(['a'], parseElement [' ', '1']), (dots, leaf dots), (['a'], parseElement [' ', '2'])]
    SpellsObject ps t ∧ ∃ entries, parseElement t = object entries ∧
      ∃ has k, meaning id has entries k = some (.spread dots) ∧
        meaning id has ps k = some (.value (parseElement [' ', '2'])) ∧
        meaning id has entries k ≠ meaning id has ps k := by
  intro t dots ps
  let pieces : List (List Run) :=
    [[code 'a', code ':', code ' ', code '1'], [code '.', code '.', code '.', code 's'],
      [code 'a', code ':', code ' ', code '2']]
  have hkey : isSpread (Run.join [code 'a']) = false := rfl
  have hspread : Spells (dots, leaf dots) [code '.', code '.', code '.', code 's'] :=
    @Spells.spread [code 's']
  have hspells : SpellsObject ps t :=
    spellsObject_of_segments pieces (by decide +kernel) (by decide +kernel)
      (.cons (spells_colon rfl rfl hkey (by decide) _) (.cons hspread
        (.cons (spells_colon rfl rfl hkey (by decide) _) .nil))) (by decide +kernel)
  refine ⟨hspells, _, parseElement_of_spells hspells, fun _ _ => true, ['a'], rfl, rfl, fun h => ?_⟩
  exact Held.noConfusion (Option.some.inj h)

end Element

end ScriptSurvey
