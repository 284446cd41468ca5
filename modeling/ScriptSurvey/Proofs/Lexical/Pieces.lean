import ScriptSurvey.Proofs.Lexical.Cuts
import ScriptSurvey.Proofs.Lexical.Level

/-!
# Pieces between commas

A list is written with a comma and a space between its pieces. Reading it again cuts at the commas
outside brackets and trims what lies between, so it finds the same pieces if each of them is level,
lacks a comma outside its brackets, and neither begins nor ends in trivia. Spaces around the whole,
as the braces of an object have them, are trimmed too.
-/

namespace ScriptSurvey

namespace Run

open Nesting

/-- Runs with no trivia at either end, and something between. -/
structure Trimmed (rs : List Run) : Prop where
  ne_nil : rs ≠ []
  head : ∀ r, rs.head? = some r → r.isTrivia = false
  last : ∀ r, rs.getLast? = some r → r.isTrivia = false

instance (rs : List Run) : Decidable (Trimmed rs) :=
  decidable_of_iff (rs ≠ [] ∧ (∀ r ∈ rs.head?, r.isTrivia = false) ∧
      ∀ r ∈ rs.getLast?, r.isTrivia = false)
    ⟨fun h => ⟨h.1, h.2.1, h.2.2⟩, fun h => ⟨h.ne_nil, h.head, h.last⟩⟩

/-- Runs that a split at commas finds whole. -/
structure IsPiece (rs : List Run) : Prop where
  level : Level rs
  lacksComma : Lacks [','] rs
  trimmed : Trimmed rs

theorem Trimmed.head?_append {p : List Run} (hp : Trimmed p) (q : List Run) :
    (p ++ q).head? = p.head? := by
  obtain ⟨r, p', rfl⟩ := List.exists_cons_of_ne_nil hp.ne_nil
  rfl

theorem Trimmed.getLast?_append {p : List Run} (hp : Trimmed p) (q : List Run) :
    (q ++ p).getLast? = p.getLast? := by
  rw [List.getLast?_append, List.getLast?_eq_some_getLast hp.ne_nil]
  rfl

theorem trim_of_isTrivia {rs : List Run} (h : ∀ r ∈ rs, r.isTrivia = true) : trim rs = [] := by
  have hd : rs.dropWhile isTrivia = [] := by
    rw [List.dropWhile_eq_nil_iff]
    exact h
  rw [trim, hd]
  rfl

/-- Trivia on both sides of trimmed runs is all that trimming takes away. -/
theorem trim_padded {a p b : List Run} (hp : Trimmed p) (ha : ∀ r ∈ a, r.isTrivia = true)
    (hb : ∀ r ∈ b, r.isTrivia = true) : trim (a ++ (p ++ b)) = p := by
  have hfront : (a ++ (p ++ b)).dropWhile isTrivia = p ++ b := by
    rw [List.dropWhile_append_of_pos ha]
    refine Text.dropWhile_of_head? fun r hr => ?_
    rw [hp.head?_append] at hr
    exact hp.head r hr
  have hback : (b.reverse ++ p.reverse).dropWhile isTrivia = p.reverse := by
    rw [List.dropWhile_append_of_pos fun r hr => hb r (List.mem_reverse.mp hr)]
    refine Text.dropWhile_of_head? fun r hr => ?_
    rw [List.head?_reverse] at hr
    exact hp.last r hr
  rw [trim, hfront, Text.dropWhileEnd, List.reverse_append, hback, List.reverse_reverse]

theorem trim_of_trimmed {p : List Run} (hp : Trimmed p) : trim p = p := by
  have h := trim_padded (a := []) (b := []) hp (by simp) (by simp)
  rwa [List.append_nil] at h

theorem last_trim (rs : List Run) : ∀ r, (trim rs).getLast? = some r → r.isTrivia = false := by
  intro r hr
  rw [trim, Text.dropWhileEnd, List.getLast?_reverse] at hr
  have := List.head?_dropWhile_not isTrivia (rs.dropWhile isTrivia).reverse
  rw [hr] at this
  simpa using this

theorem trimmed_trim {rs : List Run} (h : trim rs ≠ []) : Trimmed (trim rs) where
  ne_nil := h
  head r hr := by
    have hback := List.takeWhile_append_dropWhile (p := isTrivia)
      (l := (rs.dropWhile isTrivia).reverse)
    have hfront : (rs.dropWhile isTrivia).head? = some r := by
      rw [← List.reverse_reverse (rs.dropWhile isTrivia), ← hback, List.reverse_append,
        List.head?_append, ← Text.dropWhileEnd, ← trim, hr]
      rfl
    have := List.head?_dropWhile_not isTrivia rs
    rw [hfront] at this
    simpa using this
  last := last_trim rs

theorem Trimmed.append {p q : List Run} (hp : Trimmed p) (hq : Trimmed q) (m : List Run) :
    Trimmed (p ++ (m ++ q)) where
  ne_nil := by
    intro h
    exact hp.ne_nil (List.append_eq_nil_iff.mp h).1
  head := by
    intro r hr
    rw [hp.head?_append] at hr
    exact hp.head r hr
  last := by
    intro r hr
    rw [← List.append_assoc, hq.getLast?_append] at hr
    exact hq.last r hr

theorem isTrivia_bracket {o c : Char} (h : (o, c) ∈ bracketPairs) :
    (code o).isTrivia = false ∧ (code c).isTrivia = false := by
  simp only [bracketPairs, List.mem_cons, Prod.mk.injEq, List.not_mem_nil, or_false] at h
  rcases h with ⟨rfl, rfl⟩ | ⟨rfl, rfl⟩ | ⟨rfl, rfl⟩ | ⟨rfl, rfl⟩ <;> decide

/-- Brackets are no trivia. -/
theorem trimmed_bracketed {o c : Char} (h : (o, c) ∈ bracketPairs) (inner : List Run) :
    Trimmed (code o :: (inner ++ [code c])) where
  ne_nil := List.cons_ne_nil _ _
  head := by
    intro r hr
    rw [List.head?_cons, Option.some.injEq] at hr
    rw [← hr]
    exact (isTrivia_bracket h).1
  last := by
    intro r hr
    rw [← List.cons_append, List.getLast?_concat, Option.some.injEq] at hr
    rw [← hr]
    exact (isTrivia_bracket h).2

/-- The pieces with a comma and a space between neighbours. -/
def joinPieces (ps : List (List Run)) : List Run :=
  List.intercalate [code ',', code ' '] ps

theorem joinPieces_cons_cons (p q : List Run) (ps : List (List Run)) :
    joinPieces (p :: q :: ps) = p ++ code ',' :: code ' ' :: joinPieces (q :: ps) := by
  rw [joinPieces, List.intercalate_cons_cons, List.append_assoc]
  rfl

theorem joinPieces_singleton (p : List Run) : joinPieces [p] = p := by
  rw [joinPieces, List.intercalate_singleton]

theorem level_joinPieces {ps : List (List Run)} (h : ∀ p ∈ ps, Level p) :
    Level (joinPieces ps) := by
  induction ps with
  | nil => exact .nil
  | cons p ps ih =>
      have hrest := ih fun q hq => h q (List.mem_cons_of_mem p hq)
      cases ps with
      | nil =>
          rw [joinPieces_singleton]
          exact h p List.mem_cons_self
      | cons q ps =>
          rw [joinPieces_cons_cons]
          exact (h p List.mem_cons_self).append (.flat rfl (.flat rfl hrest))

/-! ## Trivia around pieces -/

theorem isFlat_of_isTrivia {r : Run} (h : r.isTrivia = true) : r.isFlat = true := by
  have hshift : r.shift false = .stays := by
    unfold shift
    split <;> first | rfl | exact absurd h (by decide)
  have hequals : r ≠ code '=' := by
    rintro rfl
    exact absurd h (by decide)
  simpa [isFlat, hshift, isChar] using hequals

/-- Trivia at the start of a text leaves a walk where it is. -/
theorem after_of_isTrivia {a : List Run} (h : ∀ r ∈ a, r.isTrivia = true) :
    outermost.after a = outermost :=
  after_level (Level.of_isFlat fun r hr => isFlat_of_isTrivia (h r hr)) 0

/-- Trivia holds no character but white space. -/
theorem cutAtFirst_of_isTrivia {w : Char} (hw : (code w).isTrivia = false) {a : List Run}
    (h : ∀ r ∈ a, r.isTrivia = true) (n : Nesting) : n.cutAtFirst [w] a = none := by
  induction a generalizing n with
  | nil => rfl
  | cons r a ih =>
      have hne : r ≠ code w := by
        rintro rfl
        rw [h _ List.mem_cons_self] at hw
        exact Bool.noConfusion hw
      rw [cutAtFirst_cons_of_none (.inl (dropCode?_of_ne hne a)),
        ih fun s hs => h s (List.mem_cons_of_mem r hs)]
      rfl

theorem isTrivia_spaces {a : List Run} (h : ∀ r ∈ a, r = code ' ') :
    ∀ r ∈ a, r.isTrivia = true := by
  intro r hr
  rw [h r hr]
  decide

theorem splitAtCommas_append_comma {p : List Run} (hc : Lacks [','] p)
    (hz : (outermost.after p).depth = 0) (ht : trim p ≠ []) (q : List Run) :
    splitAtCommas (p ++ code ',' :: q) = trim p :: splitAtCommas q := by
  rw [splitAtCommas, pieces_append_comma_of_depth hc hz, List.map_cons, List.filter_cons_of_pos]
  · rfl
  · simpa using ht

theorem splitAtCommas_of_lacks {p : List Run} (hc : Lacks [','] p) (ht : trim p ≠ []) :
    splitAtCommas p = [trim p] := by
  rw [splitAtCommas, pieces_of_lacks hc, List.map_cons, List.filter_cons_of_pos]
  · rfl
  · simpa using ht

/-- Runs that a split at commas finds between others: nothing is cut off at their ends or between
them, and only behind the last of them may a bracket be open. -/
structure AreSegments (ps : List (List Run)) : Prop where
  lacksComma : ∀ p ∈ ps, Lacks [','] p
  trimmed : ∀ p ∈ ps, Trimmed p
  closed : ∀ p ∈ ps.dropLast, (outermost.after p).depth = 0

instance (ps : List (List Run)) : Decidable (AreSegments ps) :=
  decidable_of_iff ((∀ p ∈ ps, Lacks [','] p) ∧ (∀ p ∈ ps, Trimmed p) ∧
      ∀ p ∈ ps.dropLast, (outermost.after p).depth = 0)
    ⟨fun h => ⟨h.1, h.2.1, h.2.2⟩, fun h => ⟨h.lacksComma, h.trimmed, h.closed⟩⟩

theorem AreSegments.nil : AreSegments [] where
  lacksComma _ h := absurd h List.not_mem_nil
  trimmed _ h := absurd h List.not_mem_nil
  closed _ h := absurd h List.not_mem_nil

theorem AreSegments.cons {p : List Run} {ps : List (List Run)} (hc : Lacks [','] p)
    (ht : Trimmed p) (hz : ps ≠ [] → (outermost.after p).depth = 0) (h : AreSegments ps) :
    AreSegments (p :: ps) where
  lacksComma := List.forall_mem_cons.mpr ⟨hc, h.lacksComma⟩
  trimmed := List.forall_mem_cons.mpr ⟨ht, h.trimmed⟩
  closed q hq := by
    cases ps with
    | nil => exact absurd hq List.not_mem_nil
    | cons s ps =>
        rw [List.dropLast_cons_cons, List.mem_cons] at hq
        rcases hq with rfl | hq
        · exact hz (List.cons_ne_nil s ps)
        · exact h.closed q hq

theorem AreSegments.tail {p : List Run} {ps : List (List Run)} (h : AreSegments (p :: ps)) :
    AreSegments ps where
  lacksComma q hq := h.lacksComma q (List.mem_cons_of_mem p hq)
  trimmed q hq := h.trimmed q (List.mem_cons_of_mem p hq)
  closed q hq := by
    cases ps with
    | nil => exact absurd hq List.not_mem_nil
    | cons s ps => exact h.closed q (List.mem_cons_of_mem p hq)

theorem IsPiece.areSegments {ps : List (List Run)} (h : ∀ p ∈ ps, IsPiece p) : AreSegments ps where
  lacksComma p hp := (h p hp).lacksComma
  trimmed p hp := (h p hp).trimmed
  closed p hp := by
    rw [outermost, after_level (h p (List.dropLast_subset ps hp)).level]

/-! ## Lists -/

/-- Whether the second runs are the first without trivia at the ends. -/
def LosesTrivia (p q : List Run) : Prop :=
  ∃ a b, p = a ++ (q ++ b) ∧ (∀ r ∈ a, r.isTrivia = true) ∧ (∀ r ∈ b, r.isTrivia = true) ∧
    (q ≠ [] → Trimmed q)

theorem losesTrivia_trim (p : List Run) : LosesTrivia p (trim p) := by
  obtain ⟨a, b, hp, ha, hb⟩ := exists_trim p
  exact ⟨a, b, hp, ha, hb, trimmed_trim⟩

namespace LosesTrivia

variable {p q : List Run}

theorem trim_eq (h : LosesTrivia p q) (hq : q ≠ []) : trim p = q := by
  obtain ⟨a, b, rfl, ha, hb, ht⟩ := h
  exact trim_padded (ht hq) ha hb

/-- Trivia holds no comma, so it does not matter to commas. -/
theorem lacksComma_iff (h : LosesTrivia p q) : Lacks [','] p ↔ Lacks [','] q := by
  obtain ⟨a, b, rfl, ha, hb, -⟩ := h
  rw [Lacks, cutAtFirst_append_of_none (cutAtFirst_of_isTrivia rfl ha outermost), after_of_isTrivia ha,
    Option.map_eq_none_iff]
  refine ⟨cutAtFirst_of_append, fun hq => ?_⟩
  rw [cutAtFirst_append_of_none hq, cutAtFirst_of_isTrivia rfl hb]
  rfl

theorem depth_after (h : LosesTrivia p q) :
    (outermost.after p).depth = (outermost.after q).depth := by
  obtain ⟨a, b, rfl, ha, hb, -⟩ := h
  rw [after_append, after_of_isTrivia ha, after_append,
    depth_after_of_isFlat fun r hr => isFlat_of_isTrivia (hb r hr)]

end LosesTrivia

/-- Pieces laid out as a list: with trivia around them, a comma between neighbours, and perhaps one
behind the last. No piece has a comma outside brackets, and none ends in brackets in front of one. -/
inductive Lists : List (List Run) → List Run → Prop where
  | none {g : List Run} (trivia : ∀ r ∈ g, r.isTrivia = true) : Lists [] g
  | last {p front : List Run} (padded : LosesTrivia front p) (ne_nil : p ≠ [])
      (lacksComma : Lacks [','] p) : Lists [p] front
  | more {p front rest : List Run} {ps : List (List Run)} (padded : LosesTrivia front p)
      (ne_nil : p ≠ []) (lacksComma : Lacks [','] p) (closed : (outermost.after p).depth = 0)
      (others : Lists ps rest) : Lists (p :: ps) (front ++ code ',' :: rest)

/-- **A split at commas finds the pieces of a list.** -/
theorem Lists.splitAtCommas {ps : List (List Run)} {rs : List Run} (h : Lists ps rs) :
    splitAtCommas rs = ps := by
  induction h with
  | none trivia =>
      rw [Run.splitAtCommas, pieces_of_lacks (cutAtFirst_of_isTrivia rfl trivia outermost),
        List.map_cons, trim_of_isTrivia trivia]
      rfl
  | last padded hne lacksComma =>
      have htrim := padded.trim_eq hne
      rw [splitAtCommas_of_lacks (padded.lacksComma_iff.mpr lacksComma) (by rwa [htrim]), htrim]
  | more padded hne lacksComma closed _ ih =>
      have htrim := padded.trim_eq hne
      rw [splitAtCommas_append_comma (padded.lacksComma_iff.mpr lacksComma)
        (padded.depth_after.trans closed) (by rwa [htrim]), htrim, ih]

/-- Segments with a comma and a space between them, and any trivia around, are a list. -/
theorem AreSegments.lists {ps : List (List Run)} (h : AreSegments ps) {a b : List Run}
    (ha : ∀ r ∈ a, r.isTrivia = true) (hb : ∀ r ∈ b, r.isTrivia = true) :
    Lists ps (a ++ (joinPieces ps ++ b)) := by
  -- the space behind each comma is trivia in front of the next segment
  induction ps generalizing a with
  | nil =>
      refine .none fun r hr => ?_
      rcases List.mem_append.mp hr with hr | hr
      · exact ha r hr
      · exact hb r hr
  | cons p ps ih =>
      have hp := h.trimmed p List.mem_cons_self
      have hc := h.lacksComma p List.mem_cons_self
      cases ps with
      | nil =>
          rw [joinPieces_singleton]
          exact .last ⟨a, b, rfl, ha, hb, fun _ => hp⟩ hp.ne_nil hc
      | cons q ps =>
          have hsplit : a ++ (joinPieces (p :: q :: ps) ++ b) =
              (a ++ (p ++ [])) ++ code ',' :: ([code ' '] ++ (joinPieces (q :: ps) ++ b)) := by
            rw [joinPieces_cons_cons]
            simp
          rw [hsplit]
          exact .more ⟨a, [], rfl, ha, by simp, fun _ => hp⟩ hp.ne_nil hc
            (h.closed p List.mem_cons_self)
            (ih h.tail (isTrivia_spaces fun r hr => List.mem_singleton.mp hr))

theorem splitAtCommas_padded {ps : List (List Run)} (h : ∀ p ∈ ps, IsPiece p) {a b : List Run}
    (ha : ∀ r ∈ a, r = code ' ') (hb : ∀ r ∈ b, r = code ' ') :
    splitAtCommas (a ++ (joinPieces ps ++ b)) = ps :=
  ((IsPiece.areSegments h).lists (isTrivia_spaces ha) (isTrivia_spaces hb)).splitAtCommas

theorem splitAtCommas_joinPieces {ps : List (List Run)} (h : ∀ p ∈ ps, IsPiece p) :
    splitAtCommas (joinPieces ps) = ps := by
  have := splitAtCommas_padded h (a := []) (b := []) (by simp) (by simp)
  rwa [List.nil_append, List.append_nil] at this

end Run

/-! ## The runs of joined texts -/

namespace Text

open Run

/-- A class of texts that keeps the runs on both sides of a comma keeps those of a list. -/
theorem runs_commaJoin {P : Text → Prop} (hnil : P [])
    (hcomma : ∀ t u, P t → P u → P (t ++ ([',', ' '] ++ u)) ∧
      runs (t ++ ([',', ' '] ++ u)) = runs t ++ (code ',' :: code ' ' :: runs u))
    {ts : List Text} (h : ∀ t ∈ ts, P t) :
    P (commaJoin ts) ∧ runs (commaJoin ts) = joinPieces (ts.map runs) := by
  induction ts with
  | nil => exact ⟨hnil, runs_nil⟩
  | cons t ts ih =>
      have ht := h t List.mem_cons_self
      obtain ⟨hs, hr⟩ := ih fun u hu => h u (List.mem_cons_of_mem t hu)
      cases ts with
      | nil =>
          rw [commaJoin, List.intercalate_singleton]
          exact ⟨ht, (joinPieces_singleton _).symm⟩
      | cons u ts =>
          have hjoin : commaJoin (t :: u :: ts) = t ++ ([',', ' '] ++ commaJoin (u :: ts)) := by
            rw [commaJoin, List.intercalate_cons_cons, List.append_assoc]
            rfl
          obtain ⟨hp, hruns⟩ := hcomma t _ ht hs
          rw [hjoin]
          refine ⟨hp, ?_⟩
          rw [hruns, hr]
          exact (joinPieces_cons_cons _ _ _).symm

/-- Sealed texts with commas between them are sealed, and their runs are joined alike. -/
theorem runs_commaJoin_of_sealed {ts : List Text} (h : ∀ t ∈ ts, t.Sealed) :
    (commaJoin ts).Sealed ∧ runs (commaJoin ts) = joinPieces (ts.map runs) := by
  have hplain : ∀ c ∈ [',', ' '], isPlain c = true := by decide
  have hsep : Sealed [',', ' '] := sealed_of_isPlain hplain
  refine runs_commaJoin .nil (fun t u ht hu => ⟨ht.append (hsep.append hu), ?_⟩) h
  rw [ht.runs_append, runs_append_of_isPlain hplain]
  rfl

end Text

end ScriptSurvey
