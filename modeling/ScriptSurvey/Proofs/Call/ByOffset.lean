import ScriptSurvey.Proofs.Argument.ByOffset
import ScriptSurvey.Proofs.Call.Candidates
import ScriptSurvey.Proofs.Lexical.Words

/-!
# Calls by offset

The reader of calls, made **over the bytes of a text**: it searches closing brackets by offset, with a count
of those that are open in a number of the machine, cuts the text at what it finds, reads the arguments by
offset as well, and keeps the place of a call in words of 32 bits, at the end of which it goes on.

It finds the same calls in every text of fewer than `2 ^ 32` bytes that is no deeper than the machine can
count.
-/

namespace ScriptSurvey

open Run Cursor

/-- The call with its place in words. -/
def CallSite.inWords (site : CallSite) : CallSite :=
  { site with span := site.span.inWords }

namespace ByOffset

section Reader

variable (count : Int → Int) (source : Text)

/-- What the bracket `o` at byte `p` encloses, and the offset behind the one that closes it; the inner
`none` when there are no such brackets. -/
def enclosedAt? (o : Char) (p : Nat) : Option (Option (Text × Nat)) :=
  if (place source p).rest.head? = some o then
    (closing? count source p).bind fun
      | none => some none
      | some q => (between? source (p + 1) q).map fun inner => some (inner, q + 1)
  else some none

/-- The elements of the list that the bracket `o` at byte `p` opens, and the offset behind it. -/
def listAt? (o : Char) (p : Nat) : Option (Option (List Element × Nat)) :=
  (enclosedAt? count source o p).bind fun
    | none => some none
    | some (inner, q) => (arguments? count (Text.size inner) inner).map fun list => some (list, q)

/-- The call of the name that stands at byte `p`. -/
def callAt? (name : Text) (p : Nat) : Option (Option CallSite) :=
  let opening := CallSite.behindTrivia source (p + Text.size name)
  (listAt? count source '<' opening).bind fun
    | none => (listAt? count source '(' opening).map <| Option.map fun (list, q) =>
        ⟨name, ⟨p, q⟩, none, list⟩
    | some (types, behind) =>
      (listAt? count source '(' (CallSite.behindTrivia source behind)).map <| Option.map fun (list, q) =>
        ⟨name, ⟨p, q⟩, some types, list⟩

/-- What is found at a code character, and where to look on. A cut that is refused ends the visits. -/
def lookForCall (cs : Callees) (c : Cursor) : Option (Option CallSite) × Next :=
  let name := Text.dottedPath c.rest
  if name.isEmpty || !c.startsWord then (none, .onward)
  else
    let behindName := c.offset + Text.size name
    if !cs.contains name || c.followsFunctionKeyword then (none, .resume behindName)
    else
      match callAt? count source name c.offset with
      | some (some site) => (some (some site.inWords), .resume site.inWords.span.stop)
      | some none => (none, .resume behindName)
      | none => (some none, .stop)

/-- The outermost calls of registered names. -/
def calls? (cs : Callees) : Option (List CallSite) :=
  if cs.names.isEmpty then some [] else (visitCode (lookForCall count source cs) source).mapM id

end Reader

/-! ## Brackets and lists -/

section Lists

variable {count : Int → Int} {source : Text} {b : Cursor} {front : List Run} {o : Char}

theorem slice?_of_between? {t u : Text} {m n : Nat} (h : between? t m n = some u) :
    (Span.mk m n).slice? t = some u := by
  rw [between?] at h
  split at h
  · exact h
  · exact absurd h (by simp)

theorem enclosedAt?_eq (hcount : Keeps count source.depth) (hb : (ofText source).Reaches b front)
    (ho : isOpeningBracket o = true) :
    enclosedAt? count source o b.offset = some (CallSite.enclosedAt? source o b.offset) := by
  rw [enclosedAt?, CallSite.enclosedAt?]
  split
  · next hhead =>
      rw [← text_ofText source, ← hb.text_eq, place_offset] at hhead
      obtain ⟨t, ht⟩ := List.head?_eq_some_iff.mp hhead
      have hruns : runs source = front ++ code o :: runs t := by
        have hahead := hb.ahead
        rwa [ht, Text.runs_cons_of_isPlain (isPlain_of_isOpeningBracket ho)] at hahead
      have hoffset : b.offset = Text.size (join front) := hb.offset_eq.trans (Nat.zero_add _)
      rw [hoffset, closing?_eq hcount hruns ho, closingOffset_eq hruns ho]
      cases henc : enclosed (runs t) with
      | none => rfl
      | some p =>
          obtain ⟨inner, after⟩ := p
          obtain ⟨x, hx, hsplit⟩ := eq_of_enclosed henc
          rw [hsplit] at hruns
          have hinner := (between?_enclosed hruns ho hx).1
          simp only [Option.map_some, Option.bind_some, hinner, slice?_of_between? hinner]
  · rfl

/-- What a bracket encloses is no deeper than the text. -/
theorem depth_le_of_enclosedAt? (hb : (ofText source).Reaches b front) (ho : isOpeningBracket o = true)
    {inner : Text} {q : Nat} (h : CallSite.enclosedAt? source o b.offset = some (inner, q)) :
    inner.depth ≤ source.depth ∧ ∃ d rs, (ofText source).Reaches d rs ∧ d.offset = q := by
  rw [← text_ofText source, ← hb.text_eq] at h
  by_cases hhead : b.rest.head? = some o
  · obtain ⟨t, ht⟩ := List.head?_eq_some_iff.mp hhead
    rw [CallSite.enclosedAt?_of_cons ht ho] at h
    obtain ⟨⟨p, d⟩, hfound, hp⟩ := Option.map_eq_some_iff.mp h
    obtain ⟨rfl, rfl⟩ := Prod.mk.inj hp
    obtain ⟨x, -, hreaches⟩ := CallSite.exists_reaches_bracketed? ht ho hfound
    refine ⟨Text.depth_join_le ?_, d, _, hb.trans hreaches, rfl⟩
    refine ⟨front ++ [code o], code x :: runs d.rest, ?_⟩
    rw [show runs source = runs (ofText source).rest from rfl, hb.ahead, hreaches.ahead]
    simp
  · rw [CallSite.enclosedAt?_of_head? hhead] at h
    exact absurd h (by simp)

theorem listAt?_eq (hcount : Keeps count source.depth) (hb : (ofText source).Reaches b front)
    (ho : isOpeningBracket o = true) :
    listAt? count source o b.offset =
      some ((CallSite.enclosedAt? source o b.offset).map fun list => (parseArguments list.1, list.2)) := by
  rw [listAt?, enclosedAt?_eq hcount hb ho, Option.bind_some]
  cases hfound : CallSite.enclosedAt? source o b.offset with
  | none => rfl
  | some list =>
      obtain ⟨inner, q⟩ := list
      dsimp only [Option.map_some]
      rw [arguments?_eq (hcount.mono (depth_le_of_enclosedAt? hb ho hfound).1), Option.map_some]

end Lists

/-! ## Calls -/

section Calls

variable {count : Int → Int} {source : Text} {c : Cursor} {front : List Run}

/-- **The call that stands at a place** is found by offset. -/
theorem callAt?_eq (hcount : Keeps count source.depth) (hc : (ofText source).Reaches c front)
    {name t : Text} (hname : ∀ x ∈ name, Text.isPlain x = true) (ht : c.rest = name ++ t) :
    callAt? count source name c.offset = some (CallSite.callAt? source name c.offset) := by
  -- behind trivia, a scan comes by
  have hskip {d : Cursor} {rs : List Run} (hd : (ofText source).Reaches d rs) :
      CallSite.behindTrivia source d.offset = d.skipTrivia.offset := by
    rw [← CallSite.behindTrivia_offset, hd.text_eq, text_ofText]
  have hbehind := hc.trans (reaches_forward ht hname)
  have hopening := hbehind.trans (reaches_skipTrivia _)
  have hoffset : c.offset + Text.size name = (c.forward name.length).offset := by
    rw [(reaches_forward ht hname).offset_eq, join_map_code]
  rw [callAt?, CallSite.callAt?, hoffset, hskip hbehind, listAt?_eq hcount hopening rfl,
    listAt?_eq hcount hopening rfl, Option.bind_some]
  cases hfound : CallSite.enclosedAt? source '<' (c.forward name.length).skipTrivia.offset with
  | none =>
      dsimp only [Option.map_none]
      rw [Option.map_some, Option.map_map]
      rfl
  | some list =>
      obtain ⟨types, q⟩ := list
      obtain ⟨-, d, rs, hd, rfl⟩ := depth_le_of_enclosedAt? hopening rfl hfound
      dsimp only [Option.map_some]
      rw [hskip hd, listAt?_eq hcount (hd.trans (reaches_skipTrivia d)) rfl, Option.map_some, Option.map_map]
      rfl

end Calls

end ByOffset

/-! ## The visits -/

namespace CallSite

variable {cs : Callees} {c : Cursor}

/-- The reader of calls resumes behind a name or behind a call, and a scan comes by at either. -/
theorem keepsStep_look (cs : Callees) : KeepsStep (look cs) := by
  intro c n hnext
  have honward (h : Text.dottedPath c.rest = [] ∨ c.startsWord = false) : False := by
    rw [look_of_no_word h] at hnext
    exact absurd hnext (by simp)
  have hname : Text.dottedPath c.rest ≠ [] := fun h => honward (.inl h)
  have hword : c.startsWord = true := by
    cases hstarts : c.startsWord with
    | true => rfl
    | false => exact (honward (.inr hstarts)).elim
  cases hcandidate : candidateAt? c.text cs c.offset with
  | none =>
      rw [look_of_no_call hname hword hcandidate] at hnext
      obtain ⟨u, hu⟩ := Text.dottedPath_prefix c.rest
      have hreaches := reaches_forward hu.symm fun y hy => isPlain_of_mem_dottedPath hy
      refine ⟨_, _, by simpa using hname, hreaches, ?_⟩
      rw [hreaches.offset_eq, join_map_code]
      exact Next.resume.inj hnext
  | some site =>
      rw [look_of_call hcandidate] at hnext
      obtain ⟨-, hcallee, b, d, gap, inner, hlies⟩ := exists_liesAt_of_candidateAt? hcandidate
      obtain ⟨x, -, hreaches⟩ := hlies.exists_reaches
      refine ⟨d, _, List.append_ne_nil_of_left_ne_nil (by simpa using hcallee) _, hreaches, ?_⟩
      rw [← Next.resume.inj hnext, hlies.span]

/-- A call in a text of fewer than `2 ^ 32` bytes has its place in words. -/
theorem inWords_eq {site : CallSite} {name t : Text} (hsize : Text.size c.text < 2 ^ 32)
    (hc : c.rest = name ++ t) (hname : ∀ x ∈ name, Text.isPlain x = true) (h : at? name c = some site) :
    site.inWords = site := by
  obtain ⟨-, b, d, gap, inner, hlies⟩ := exists_liesAt_of_at? hc hname h
  obtain ⟨x, -, hreaches⟩ := hlies.exists_reaches
  have hle := hreaches.isAhead.offset_le
  have htext := congrArg Text.size hreaches.text_eq
  rw [Cursor.text, Text.size_append, Text.size_reverse, ← Cursor.offset] at htext
  have hspan : site.span.inWords = site.span := by
    rw [hlies.span]
    exact Span.inWords_eq (by simp only; omega) (by simp only; omega)
  rw [inWords, hspan]

end CallSite

namespace ByOffset

variable {count : Int → Int} {source : Text}

theorem lookForCall_eq (hcount : Keeps count source.depth) (hsize : Text.size source < 2 ^ 32)
    (cs : Callees) {c : Cursor} {front : List Run} (hc : (ofText source).Reaches c front) :
    lookForCall count source cs c = ((CallSite.look cs c).1.map some, (CallSite.look cs c).2) := by
  obtain ⟨t, ht⟩ := Text.dottedPath_prefix c.rest
  have hname (x : Char) (hx : x ∈ Text.dottedPath c.rest) := CallSite.isPlain_of_mem_dottedPath hx
  have htext : c.text = source := hc.text_eq
  have hcall := callAt?_eq hcount hc hname ht.symm
  rw [← htext, ← CallSite.at?_eq ht.symm hname, htext] at hcall
  simp only [lookForCall, CallSite.look, hcall]
  split
  · rfl
  split
  · rfl
  cases hsite : CallSite.at? (Text.dottedPath c.rest) c with
  | none => rfl
  | some site =>
      dsimp only
      rw [CallSite.inWords_eq (by rwa [htext]) ht.symm hname hsite]
      rfl

/-- **The reader by offset** finds the calls, and makes no cut that is refused. -/
theorem calls?_eq (hcount : Keeps count source.depth) (hsize : Text.size source < 2 ^ 32) (cs : Callees) :
    calls? count source cs = some (findCalls cs source) := by
  rw [calls?, findCalls]
  split
  · rfl
  · have hvisits : visitCode (lookForCall count source cs) source =
        (visitCode (CallSite.look cs) source).map some :=
      visit_eq_map_of_keepsStep (CallSite.keepsStep_look cs) fun e rs he => lookForCall_eq hcount hsize cs he
    rw [hvisits, List.mapM_map]
    exact (mapM_eq_some fun site _ => rfl).trans (congrArg some (List.map_id _))

/-- **Words of 32 bits are enough** for the calls in a text of fewer than `2 ^ 32` bytes in which fewer than
`2 ^ 31` brackets are open at once. -/
theorem calls?_int32 (hdeep : source.depth < 2 ^ 31) (hsize : Text.size source < 2 ^ 32) (cs : Callees) :
    calls? int32 source cs = some (findCalls cs source) :=
  calls?_eq (keeps_int32 hdeep) hsize cs

/-- In a text of fewer than `2 ^ 31` bytes there is no room for more brackets than that. -/
theorem calls?_int32_of_size (hsize : Text.size source < 2 ^ 31) (cs : Callees) :
    calls? int32 source cs = some (findCalls cs source) :=
  calls?_int32 (Nat.lt_of_le_of_lt (Text.depth_le_size source) hsize) (by omega) cs

end ByOffset

end ScriptSurvey
