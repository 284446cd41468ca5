import ScriptSurvey.Proofs.Call.Alongside

/-!
# Comments in front of calls

The calls of a text remain in what is left of it without its comments, and the reader sees the same paths
go on in front of them. What it may see differently is the word `function`. It reads characters, and so
it reads a comment: one that ends in the word hides a call behind it, and one behind the word keeps a name
that is declared from being told from a call.

**The same calls are found in both texts exactly if the word is seen alike in front of each call that
stands in no other.** So it is wherever no comment stands directly in front of a name that is called.
-/

namespace ScriptSurvey

open Run

/-! ## The word without comments -/

namespace Run

theorem map_blankComment_eq_iff {w : Text} (hw : ∀ c ∈ w, c ≠ ' ') {rs : List Run} :
    rs.map blankComment = w.map code ↔ rs = w.map code := by
  constructor
  · intro h
    induction w generalizing rs with
    | nil => simpa using h
    | cons c w ih =>
        obtain ⟨r, rs, rfl, hr, hrs⟩ := List.map_eq_cons_iff.mp h
        obtain ⟨hc, hothers⟩ := List.forall_mem_cons.mp hw
        rw [ih hothers hrs, List.map_cons]
        cases r with
        | code d => rw [show code d = code c from hr]
        | comment kind t => exact absurd (code.inj hr).symm hc
        | literal kind t => exact absurd hr (by simp [blankComment])
  · rintro rfl
    rw [List.map_map]
    rfl

theorem getLast?_map_blankComment_iff {rs : List Run} {d : Char} (hd : d ≠ ' ') :
    (rs.map blankComment).getLast? = some (code d) ↔ rs.getLast? = some (code d) := by
  rw [List.getLast?_map, Option.map_eq_some_iff]
  constructor
  · rintro ⟨r, hr, hcode⟩
    have hsame : [r] = [d].map code :=
      (map_blankComment_eq_iff (by simpa using hd)).mp (congrArg (fun s => [s]) hcode)
    rw [hr, (List.cons.inj hsame).1]
  · exact fun h => ⟨_, h, rfl⟩

/-- What holds of a space is not told from the last run by taking comments out. -/
theorem forall_getLast?_map_blankComment_iff {P : Char → Prop} (hspace : P ' ') (rs : List Run) :
    (∀ d, (rs.map blankComment).getLast? = some (code d) → P d) ↔
      ∀ d, rs.getLast? = some (code d) → P d := by
  refine forall_congr' fun d => ?_
  by_cases hd : d = ' '
  · rw [hd]
    exact iff_of_true (fun _ => hspace) fun _ => hspace
  · rw [getLast?_map_blankComment_iff hd]

/-- Runs end in the word as code if and only if what is left of them does. -/
theorem endsInFunction_map_iff (rs : List Run) :
    EndsInFunction (rs.map blankComment) ↔ EndsInFunction rs := by
  have hspace : ∀ c ∈ functionWord, c ≠ ' ' := fun c hc => (of_mem_functionWord c hc).2.2.2
  have hlast := forall_getLast?_map_blankComment_iff
    (P := fun c => Text.isIdentifierPart c = false) (by decide +kernel)
  constructor
  · rintro ⟨q, hq, hboundary⟩
    obtain ⟨p, w, rfl, rfl, hw⟩ := List.map_eq_append_iff.mp hq
    rw [(map_blankComment_eq_iff hspace).mp hw]
    exact ⟨p, rfl, (hlast p).mp hboundary⟩
  · rintro ⟨q, rfl, hboundary⟩
    refine ⟨q.map blankComment, ?_, (hlast q).mpr hboundary⟩
    rw [List.map_append, (map_blankComment_eq_iff hspace).mpr rfl]

end Run

/-- A text and what is left of it end in the word alike, unless a comment is the last of the text, blanks
apart. -/
theorem endsInFunction_stripComments_or (t : Text) :
    ((stripComments t).EndsInFunction ↔ t.EndsInFunction) ∨
      ∃ q kind u bs, runs t = q ++ comment kind u :: bs ∧ ∀ r ∈ bs, r.isBlank = true := by
  obtain ⟨p, bs, hruns, hblank, hlast⟩ := exists_eq_append_of_last isBlank (runs t)
  have hstable : Stable p := stable_front hruns
  have hstable' : Stable (p.map blankComment) :=
    stable_front (by rw [runs_stripComments, hruns, List.map_append])
  have hblank' : ∀ r ∈ bs.map blankComment, r.isBlank = true := by
    intro r hr
    obtain ⟨s, hs, rfl⟩ := List.mem_map.mp hr
    have hs := hblank s hs
    cases s with
    | code c => exact hs
    | comment kind u => exact absurd hs Bool.false_ne_true
    | literal kind u => exact absurd hs Bool.false_ne_true
  have hwhole : t.EndsInFunction ↔ (join p).EndsInFunction := by
    rw [← endsInFunction_join_append_iff hblank, ← hruns, join_runs]
  have hwhole' : (stripComments t).EndsInFunction ↔ (join (p.map blankComment)).EndsInFunction := by
    rw [← endsInFunction_join_append_iff hblank', ← List.map_append, ← hruns]
    rfl
  rw [hwhole, hwhole']
  rcases List.eq_nil_or_concat p with rfl | ⟨q, r, rfl⟩
  · exact .inl Iff.rfl
  · rw [List.concat_eq_append] at hruns hlast hstable hstable' ⊢
    rw [List.map_append] at hstable' ⊢
    have hr := hlast r List.getLast?_concat
    cases r with
    | code d =>
        left
        calc (join (q.map blankComment ++ [code d])).EndsInFunction
          _ ↔ EndsInFunction (q.map blankComment ++ [code d]) :=
              endsInFunction_join_code_iff hstable' hr
          _ ↔ EndsInFunction (q ++ [code d]) := by
              rw [← endsInFunction_map_iff (q ++ [code d]), List.map_append]
              rfl
          _ ↔ (join (q ++ [code d])).EndsInFunction := (endsInFunction_join_code_iff hstable hr).symm
    | comment kind u => exact .inr ⟨q, kind, u, bs, by simpa using hruns, hblank⟩
    | literal kind u =>
        left
        rw [endsInFunction_join_concat_iff hstable rfl]
        exact endsInFunction_join_concat_iff hstable' rfl

/-- Of two related lists, each element has one that it is related to. -/
theorem exists_of_forall₂ {α β : Type} {R : α → β → Prop} {as : List α} {bs : List β}
    (h : List.Forall₂ R as bs) {a : α} (ha : a ∈ as) : ∃ b ∈ bs, R a b := by
  induction h with
  | nil => exact absurd ha List.not_mem_nil
  | @cons a' b as bs hab _ ih =>
      rcases List.mem_cons.mp ha with rfl | ha
      · exact ⟨b, List.mem_cons_self, hab⟩
      · obtain ⟨b', hb', hR⟩ := ih ha
        exact ⟨b', List.mem_cons_of_mem b hb', hR⟩

namespace CallSite

/-! ## What stands in front of a call -/

section Front

variable (source : Text)

/-- The text in front of a call. -/
def before (site : CallSite) : Text :=
  (Cursor.place source site.span.start).passed.reverse

/-- Whether no path goes on in front of a call. -/
def StartsWord (site : CallSite) : Prop :=
  (Cursor.place source site.span.start).startsWord = true

/-- Whether the text in front of a call and what is left of it end in the word `function` alike. -/
def LooksAlike (site : CallSite) : Prop :=
  (stripComments (site.before source)).EndsInFunction ↔ (site.before source).EndsInFunction

end Front

/-- Whether a call begins inside one of some others. -/
def IsInside (sites : List CallSite) (site : CallSite) : Prop :=
  ∃ kept ∈ sites, kept.span.start < site.span.start ∧ site.span.start < kept.span.stop

/-- A call is free if no path goes on in front of it, and not the word `function` either. -/
theorem isFree_eq_true_iff {source : Text} {site : CallSite} :
    isFree source site.span.start = true ↔
      site.StartsWord source ∧ ¬(site.before source).EndsInFunction := by
  rw [isFree, Bool.and_eq_true, Bool.not_eq_true', ← Bool.not_eq_true,
    Cursor.followsFunctionKeyword_iff]
  rfl

variable {source : Text} {cs : Callees} {site site' : CallSite}

/-- In front of what is left of a call stands what is left of the text, and a path goes on there if it did
before. -/
theorem RemainsAs.front (h : site.RemainsAs source site') (hsite : site ∈ calls source cs) :
    site'.before (stripComments source) = stripComments (site.before source) ∧
      (site'.StartsWord (stripComments source) ↔ site.StartsWord source) := by
  obtain ⟨front, x, after, hruns, hpath, hstart⟩ := exists_of_mem_calls hsite
  obtain ⟨front', after', hruns', hsame, hstart'⟩ := h.start
  obtain rfl : front' = front := eq_of_size_join hruns' hruns (hsame.symm.trans hstart)
  have hleft : runs (stripComments source) =
      front'.map blankComment ++ (code x :: after.map blankComment) := by
    rw [runs_stripComments, hruns, List.map_append]
    rfl
  -- scanned alone, what is in front of the name has the runs that it has in the text
  have hstable := stable_front_concat hruns
  have hline : x ≠ '\n' := Text.ne_of_isPathChar hpath (by decide)
  have hplace := Cursor.place_of_runs hruns
  have hplace' := Cursor.place_of_runs hleft
  rw [← hstart] at hplace
  rw [← hstart'] at hplace'
  constructor
  · rw [before, before, hplace, hplace', List.reverse_reverse, List.reverse_reverse, stripComments,
      hstable.of_append_left]
  · rw [StartsWord, StartsWord, hplace, hplace',
      Cursor.startsWord_iff rfl (stable_front_concat hleft) hline,
      Cursor.startsWord_iff rfl hstable hline]
    exact forall_getLast?_map_blankComment_iff (P := fun d => Text.isPathChar d = false)
      (by decide +kernel) front'

/-- What is left of a call is free if the call is, and only then, exactly if the word is seen alike. -/
theorem RemainsAs.isFree_iff (h : site.RemainsAs source site') (hsite : site ∈ calls source cs) :
    (isFree (stripComments source) site'.span.start = true ↔
      isFree source site.span.start = true) ↔
        (site.StartsWord source → site.LooksAlike source) := by
  obtain ⟨hbefore, hword⟩ := h.front hsite
  rw [isFree_eq_true_iff, isFree_eq_true_iff, hbefore, hword, LooksAlike]
  tauto

/-! ## The calls that lie apart -/

theorem keepApart_filter_cons_of_lt {n : Nat} (h : site.span.start < n) (f : CallSite → Bool)
    (sites : List CallSite) :
    keepApart n ((site :: sites).filter f) = keepApart n (sites.filter f) := by
  rw [List.filter_cons]
  split
  · rw [keepApart, if_neg (by omega)]
  · rfl

theorem keepApart_filter_cons_of_le {n : Nat} (h : n ≤ site.span.start) {f : CallSite → Bool}
    (hf : f site = true) (sites : List CallSite) :
    keepApart n ((site :: sites).filter f) =
      site :: keepApart site.span.stop (sites.filter f) := by
  rw [List.filter_cons, if_pos hf, keepApart, if_pos h]

/-- No call begins inside one that begins behind it. -/
theorem not_isInside_of_forall {sites : List CallSite}
    (h : ∀ kept ∈ sites, site.span.start ≤ kept.span.start) : ¬site.IsInside sites := by
  rintro ⟨kept, hkept, hstart, -⟩
  have := h kept hkept
  omega

/-- From left to right, calls and what is left of them are kept side by side, as long as they are free
alike wherever they are not passed over. -/
theorem forall₂_keepApart {as bs : List CallSite} {f g : CallSite → Bool} {C : CallSite → Prop}
    (h : List.Forall₂ (fun a b => a.RemainsAs source b ∧ (C a → g b = f a)) as bs)
    (hstarts : as.Pairwise fun a b => a.span.start < b.span.start) {n n' : Nat}
    (hn : Remains source n n')
    (hC : ∀ a ∈ as, n ≤ a.span.start → ¬a.IsInside (keepApart n (as.filter f)) → C a) :
    List.Forall₂ (RemainsAs source) (keepApart n (as.filter f)) (keepApart n' (bs.filter g)) := by
  induction h generalizing n n' with
  | nil => exact .nil
  | @cons a b as bs hab _ ih =>
      obtain ⟨hremains, hfree⟩ := hab
      obtain ⟨hfirst, hothers⟩ := List.pairwise_cons.mp hstarts
      have hle := hn.le_iff hremains.start
      by_cases hstart : n ≤ a.span.start
      · -- nothing that is kept begins in front of the call, so it is free alike
        have hsame := hfree (hC a List.mem_cons_self hstart
          (not_isInside_of_forall fun kept hkept => by
            rcases List.mem_cons.mp (List.mem_of_mem_filter ((keepApart_sublist n _).mem hkept)) with
              rfl | hmem
            · exact Nat.le_refl _
            · exact Nat.le_of_lt (hfirst kept hmem)))
        cases hf : f a with
        | false =>
            rw [hf] at hsame
            have hskip : ¬f a = true := by rw [hf]; exact Bool.false_ne_true
            have hskip' : ¬g b = true := by rw [hsame]; exact Bool.false_ne_true
            rw [List.filter_cons_of_neg hskip] at hC ⊢
            rw [List.filter_cons_of_neg hskip']
            exact ih hothers hn fun x hx => hC x (List.mem_cons_of_mem a hx)
        | true =>
            rw [hf] at hsame
            rw [keepApart_filter_cons_of_le hstart hf] at hC ⊢
            rw [keepApart_filter_cons_of_le (hle.mp hstart) hsame]
            refine .cons hremains (ih hothers hremains.stop fun x hx hstop hout => ?_)
            have hbehind := hfirst x hx
            refine hC x (List.mem_cons_of_mem a hx) (by omega) ?_
            rintro ⟨kept, hkept, hinside⟩
            rcases List.mem_cons.mp hkept with rfl | hkept
            · omega
            · exact hout ⟨kept, hkept, hinside⟩
      · rw [keepApart_filter_cons_of_lt (by omega)] at hC ⊢
        rw [keepApart_filter_cons_of_lt (by omega)]
        exact ih hothers hn fun x hx => hC x (List.mem_cons_of_mem a hx)

/-! ## The calls that are found -/

/-- Whether the word `function` is seen alike in front of every call that stands in no other one. -/
def SeenAlike (source : Text) (cs : Callees) : Prop :=
  ∀ site ∈ calls source cs, site.StartsWord source → ¬site.IsInside (findCalls cs source) →
    site.LooksAlike source

theorem forall₂_findCalls (h : SeenAlike source cs) :
    List.Forall₂ (RemainsAs source) (findCalls cs source) (findCalls cs (stripComments source)) := by
  have hpairs : List.Forall₂ (fun a b => a.RemainsAs source b ∧
      ((a.StartsWord source → a.LooksAlike source) →
        isFree (stripComments source) b.span.start = isFree source a.span.start))
      (calls source cs) (calls (stripComments source) cs) := by
    have hall := (List.forall₂_and_left _ _).mpr ⟨fun a ha => ha, forall₂_calls source cs⟩
    refine hall.imp fun a b ⟨ha, hab⟩ => ⟨hab, fun halike => ?_⟩
    rw [Bool.eq_iff_iff]
    exact (hab.isFree_iff ha).mpr halike
  rw [findCalls_eq, findCalls_eq, candidates_eq_filter, candidates_eq_filter]
  refine forall₂_keepApart hpairs (pairwise_calls source cs) ⟨[], runs source, rfl, rfl, rfl⟩
    fun a ha _ hout hword => h a ha hword ?_
  rwa [findCalls_eq, candidates_eq_filter]

theorem seenAlike_of_forall₂ (h : List.Forall₂ (RemainsAs source) (findCalls cs source)
    (findCalls cs (stripComments source))) : SeenAlike source cs := by
  intro site hsite hword hout
  obtain ⟨site', hsite', hremains⟩ := exists_of_forall₂ (forall₂_calls source cs) hsite
  have hfree {t : Text} {found : CallSite} (hfound : found ∈ findCalls cs t) :
      isFree t found.span.start = true := by
    rw [findCalls_eq] at hfound
    exact (mem_candidates_iff.mp ((keepApart_sublist 0 _).mem hfound)).2
  refine (hremains.isFree_iff hsite).mp ⟨fun hfree' => ?_, fun hfree' => ?_⟩ hword
  · rcases mem_findCalls_or (mem_candidates_iff.mpr ⟨hsite', hfree'⟩) with
      hfound' | ⟨kept', hkept', hstart', hstop'⟩
    · obtain ⟨found, hfound, hsame⟩ := exists_of_forall₂ (List.Forall₂.flip h) hfound'
      rw [← (hsame.start.eq_iff hremains.start).mpr rfl]
      exact hfree hfound
    · -- the call that it would stand in remains from one that the call itself stands in
      obtain ⟨kept, hkept, hsame⟩ := exists_of_forall₂ (List.Forall₂.flip h) hkept'
      exact absurd ⟨kept, hkept, (hsame.start.lt_iff hremains.start).mpr hstart',
        (hremains.start.lt_iff hsame.stop).mpr hstop'⟩ hout
  · rcases mem_findCalls_or (mem_candidates_iff.mpr ⟨hsite, hfree'⟩) with hfound | hinside
    · obtain ⟨found', hfound', hsame⟩ := exists_of_forall₂ h hfound
      rw [← (hsame.start.eq_iff hremains.start).mp rfl]
      exact hfree hfound'
    · exact absurd hinside hout

theorem map_callee_of_forall₂ {as bs : List CallSite} (h : List.Forall₂ (RemainsAs source) as bs) :
    bs.map CallSite.callee = as.map CallSite.callee := by
  induction h with
  | nil => rfl
  | cons hab _ ih => rw [List.map_cons, List.map_cons, hab.callee, ih]

end CallSite

open CallSite

/-- **The calls that are found in what is left of a text are those that are found in the text**, one by
one, exactly if the word `function` is seen alike in front of each call that stands in no other one. Their
names are the same then. Only a comment directly in front of a call, blanks apart, can make a difference
to the word. -/
theorem findCalls_stripComments (cs : Callees) (source : Text) :
    (SeenAlike source cs ↔ List.Forall₂ (RemainsAs source) (findCalls cs source)
      (findCalls cs (stripComments source))) ∧
    (SeenAlike source cs → (findCalls cs (stripComments source)).map CallSite.callee =
      (findCalls cs source).map CallSite.callee) ∧
    ∀ site ∈ calls source cs, ¬site.LooksAlike source →
      ∃ front kind t blanks, runs (site.before source) = front ++ comment kind t :: blanks ∧
        ∀ r ∈ blanks, r.isBlank = true :=
  ⟨⟨forall₂_findCalls, seenAlike_of_forall₂⟩,
    fun h => map_callee_of_forall₂ (forall₂_findCalls h),
    fun site _ hdiffers => (endsInFunction_stripComments_or (site.before source)).resolve_left hdiffers⟩

/-- Comments in front of a call, inside one and between two: the same two calls are found without them. -/
theorem findCalls_stripComments_moved :
    let source := "/* f(a) */ f/**/(f(b)), // f\nf(c)".toList
    SeenAlike source ⟨[['f']]⟩ ∧
      (findCalls ⟨[['f']]⟩ source).map CallSite.span = [⟨11, 22⟩, ⟨29, 33⟩] ∧
      (findCalls ⟨[['f']]⟩ (stripComments source)).map CallSite.span = [⟨2, 10⟩, ⟨14, 18⟩] ∧
      List.Forall₂ (RemainsAs source) (findCalls ⟨[['f']]⟩ source)
        (findCalls ⟨[['f']]⟩ (stripComments source)) := by
  intro source
  have hseen : SeenAlike source ⟨[['f']]⟩ := by
    unfold SeenAlike StartsWord LooksAlike IsInside
    decide +kernel
  exact ⟨hseen, by decide +kernel, by decide +kernel,
    (findCalls_stripComments ⟨[['f']]⟩ source).1.mp hseen⟩

/-- In `// function` with the call `f(a)` on the next line, the comment hides the call, and in
`function /**/ f(a) {}` it makes one of the name that is declared. -/
theorem call_behind_comment :
    (Text.Settled "// function\nf(a)".toList ∧
      (findCalls ⟨[['f']]⟩ "// function\nf(a)".toList).map CallSite.callee = [] ∧
      (findCalls ⟨[['f']]⟩ (stripComments "// function\nf(a)".toList)).map CallSite.callee =
        [['f']]) ∧
    Text.Settled "function /**/ f(a) {}".toList ∧
      (findCalls ⟨[['f']]⟩ "function /**/ f(a) {}".toList).map CallSite.callee = [['f']] ∧
      (findCalls ⟨[['f']]⟩ (stripComments "function /**/ f(a) {}".toList)).map CallSite.callee =
        [] := by
  decide +kernel

end ScriptSurvey
