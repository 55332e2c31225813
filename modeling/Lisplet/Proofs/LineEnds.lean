import Lisplet.Proofs.LineCuts
import Lisplet.Proofs.SoundSession
import Mathlib.Data.List.Forall2

/-!
Line ends in strings. A text that is evaluated is cut at every line end and its lines are joined
with newlines. Between tokens one line end is as good as another, but those inside a string
literal become newlines: without comments, what is read are the same values with other strings,
and the same ones if their strings have no line end but newlines.
-/

set_option autoImplicit false

namespace Lisplet

namespace Text

/-- A newline for each line end. The flag tells that a carriage return has just become one, which
takes a newline right after it along. -/
def unifyFrom : Bool → List Char → List Char
  | _, [] => []
  | afterReturn, c :: rest =>
    if afterReturn && c == '\n' then unifyFrom false rest
    else if isLineEnd c then '\n' :: unifyFrom (c == '\r') rest
    else c :: unifyFrom false rest

def unify (text : List Char) : List Char := unifyFrom false text

example : unify "a\r\n\rb\u2028".toList = "a\n\nb\n".toList := by decide

theorem isBlank_of_isLineEnd {c : Char} (h : isLineEnd c = true) : isBlank c = true := by
  simp only [isLineEnd, isBlank, Bool.or_eq_true, Bool.and_eq_true, decide_eq_true_eq,
    beq_iff_eq] at h ⊢
  omega

theorem not_isLineEnd_of_not_isBlank {c : Char} (h : isBlank c = false) :
    isLineEnd c = false := by
  by_contra hnot
  rw [isBlank_of_isLineEnd (by simpa using hnot)] at h
  cases h

theorem ne_newline_of_not_isLineEnd {c : Char} (h : isLineEnd c = false) : c ≠ '\n' := by
  rintro rfl
  exact absurd h (by decide)

theorem unifyFrom_cons {c : Char} (h : isLineEnd c = false) (afterReturn : Bool)
    (rest : List Char) : unifyFrom afterReturn (c :: rest) = c :: unify rest := by
  simp [unifyFrom, unify, h, ne_newline_of_not_isLineEnd h]

theorem unifyFrom_append {c : Char} (h : isLineEnd c = false) (afterReturn : Bool)
    (front rest : List Char) :
    unifyFrom afterReturn (front ++ c :: rest) =
      unifyFrom afterReturn front ++ c :: unify rest := by
  induction front generalizing afterReturn with
  | nil => exact unifyFrom_cons h afterReturn rest
  | cons d front ih =>
    simp only [List.cons_append, unifyFrom, ih]
    split
    · rfl
    split <;> rfl

theorem dropWhile_unifyFrom (afterReturn : Bool) (text : List Char) :
    (unifyFrom afterReturn text).dropWhile isBlank = unify (text.dropWhile isBlank) := by
  induction text generalizing afterReturn with
  | nil => rfl
  | cons c rest ih =>
    by_cases hend : isLineEnd c = true
    · rw [List.dropWhile_cons_of_pos (isBlank_of_isLineEnd hend), unifyFrom]
      simp only [hend, ↓reduceIte]
      split
      · exact ih false
      · rw [List.dropWhile_cons_of_pos (by decide)]
        exact ih _
    · rw [Bool.not_eq_true] at hend
      rw [unifyFrom_cons hend]
      by_cases hblank : isBlank c = true
      · rw [List.dropWhile_cons_of_pos hblank, List.dropWhile_cons_of_pos hblank]
        exact ih false
      · rw [List.dropWhile_cons_of_neg hblank, List.dropWhile_cons_of_neg hblank]
        exact (unifyFrom_cons hend false rest).symm

theorem mem_of_mem_unifyFrom {c : Char} (h : isLineEnd c = false) {afterReturn : Bool}
    {text : List Char} (hc : c ∈ unifyFrom afterReturn text) : c ∈ text := by
  induction text generalizing afterReturn with
  | nil => exact hc
  | cons d rest ih =>
    rw [unifyFrom] at hc
    split at hc
    · exact List.mem_cons_of_mem d (ih hc)
    split at hc
    · rcases List.mem_cons.mp hc with hnewline | hc
      · exact absurd hnewline (ne_newline_of_not_isLineEnd h)
      · exact List.mem_cons_of_mem d (ih hc)
    · rcases List.mem_cons.mp hc with rfl | hc
      · exact List.mem_cons_self
      · exact List.mem_cons_of_mem d (ih hc)

theorem mem_of_mem_linesFrom {ends : Char → Bool} {afterReturn : Bool} {seen text line : List Char}
    (h : line ∈ linesFrom ends afterReturn seen text) {c : Char} (hc : c ∈ line) :
    c ∈ seen ∨ c ∈ text := by
  induction text generalizing afterReturn seen with
  | nil =>
    rw [linesFrom_nil] at h
    split at h
    · cases h
    · rw [List.mem_singleton.mp h] at hc
      exact .inl (List.mem_reverse.mp hc)
  | cons d rest ih =>
    rw [linesFrom] at h
    split at h
    · exact (ih h).imp_right (List.mem_cons_of_mem d)
    split at h
    · rcases List.mem_cons.mp h with rfl | h
      · exact .inl (List.mem_reverse.mp hc)
      · rcases ih h with hnone | hrest
        · cases hnone
        · exact .inr (List.mem_cons_of_mem d hrest)
    · rcases ih h with hseen | hrest
      · rcases List.mem_cons.mp hseen with rfl | hseen
        · exact .inr List.mem_cons_self
        · exact .inl hseen
      · exact .inr (List.mem_cons_of_mem d hrest)

def EndsInNewlines (text : List Char) : Prop := ∀ c ∈ text, isLineEnd c = true → c = '\n'

instance (text : List Char) : Decidable (EndsInNewlines text) :=
  List.decidableBAll (fun c => isLineEnd c = true → c = '\n') text

theorem EndsInNewlines.unify_eq {text : List Char} (h : EndsInNewlines text) :
    unify text = text := by
  induction text with
  | nil => rfl
  | cons c rest ih =>
    have hrest := ih fun d hd => h d (List.mem_cons_of_mem c hd)
    by_cases hend : isLineEnd c = true
    · obtain rfl := h c List.mem_cons_self hend
      exact congrArg ('\n' :: ·) hrest
    · rw [unify, unifyFrom_cons (by simpa using hend), hrest]

/-- What cutting a text into lines and joining them makes of it: its line ends become newlines,
and the last one may be missing. -/
def Rejoined (text other : List Char) : Prop := unify text = other ∨ unify text = other ++ ['\n']

theorem linesFrom_joined (afterReturn : Bool) (seen text : List Char) :
    let lines := linesFrom isLineEnd afterReturn seen text
    let unified := seen.reverse ++ unifyFrom afterReturn text
    (lines = [] → unified = []) ∧
      (unified = joinLines lines ∨ unified = joinLines lines ++ ['\n']) := by
  induction text generalizing afterReturn seen with
  | nil =>
    cases seen with
    | nil => exact ⟨fun _ => rfl, .inl rfl⟩
    | cons c seen => simp [linesFrom, unifyFrom, joinLines_singleton]
  | cons c rest ih =>
    simp only [linesFrom, unifyFrom]
    split
    · exact ih false seen
    split
    · obtain ⟨hnone, hjoined⟩ := ih (c == '\r') []
      refine ⟨fun h => absurd h (List.cons_ne_nil _ _), ?_⟩
      cases hlines : linesFrom isLineEnd (c == '\r') [] rest with
      | nil =>
        -- Nothing follows this line end, so it is the one that is lost.
        have hend : unifyFrom (c == '\r') rest = [] := hnone hlines
        simp [hend, joinLines_singleton]
      | cons next lines =>
        rw [hlines, List.reverse_nil, List.nil_append] at hjoined
        rw [joinLines_cons_cons, List.append_assoc, List.cons_append]
        exact hjoined.imp (fun h => by rw [h]) (fun h => by rw [h])
    · have hseen := ih false (c :: seen)
      rwa [List.reverse_cons, List.append_assoc, List.singleton_append] at hseen

theorem rejoined_joinLines (text : List Char) :
    Rejoined text (joinLines (linesBy isLineEnd text)) := (linesFrom_joined false [] text).2

theorem rejoined_nil {other : List Char} (h : Rejoined [] other) : other = [] := by
  rcases h with h | h
  · exact h.symm
  · cases other <;> cases h

theorem Rejoined.append {c : Char} {front rest other : List Char}
    (h : Rejoined (front ++ c :: rest) other) (hc : isLineEnd c = false) :
    ∃ rest', other = unify front ++ c :: rest' ∧ Rejoined rest rest' := by
  rw [Rejoined, unify, unifyFrom_append hc] at h
  rcases h with h | h
  · exact ⟨unify rest, h.symm, .inl rfl⟩
  · -- The newline that is missing stands behind `c`.
    rcases List.eq_nil_or_concat (unify rest) with hnil | ⟨rest', d, hrest⟩
    · rw [hnil] at h
      have hlast := (List.append_inj' h rfl).2
      exact absurd (List.cons.inj hlast).1 (ne_newline_of_not_isLineEnd hc)
    · rw [List.concat_eq_append] at hrest
      rw [hrest, ← List.cons_append, ← List.append_assoc] at h
      obtain ⟨hother, hlast⟩ := List.append_inj' h rfl
      cases hlast
      exact ⟨rest', hother.symm, .inr hrest⟩

theorem Rejoined.cons {c : Char} {rest other : List Char} (h : Rejoined (c :: rest) other)
    (hc : isLineEnd c = false) : ∃ rest', other = c :: rest' ∧ Rejoined rest rest' :=
  @append c [] rest other h hc

theorem Rejoined.token {tail rest other : List Char} (h : Rejoined (tail ++ rest) other)
    (htail : ∀ c ∈ tail, isLineEnd c = false) :
    ∃ rest', other = tail ++ rest' ∧ Rejoined rest rest' := by
  induction tail generalizing other with
  | nil => exact ⟨other, rfl, h⟩
  | cons c tail ih =>
    obtain ⟨other, rfl, hother⟩ := h.cons (htail c List.mem_cons_self)
    obtain ⟨rest', rfl, hrest⟩ := ih hother fun d hd => htail d (List.mem_cons_of_mem c hd)
    exact ⟨rest', rfl, hrest⟩

theorem Rejoined.mem {c : Char} {text other : List Char} (h : Rejoined text other)
    (hc : isLineEnd c = false) (hmem : c ∈ other) : c ∈ text := by
  apply mem_of_mem_unifyFrom hc
  rcases h with h | h <;> rw [← unify, h]
  · exact hmem
  · exact List.mem_append_left _ hmem

theorem Rejoined.dropWhile {text other : List Char} (h : Rejoined text other) :
    Rejoined (text.dropWhile isBlank) (other.dropWhile isBlank) := by
  have hdrop := dropWhile_unifyFrom false text
  rcases h with h | h
  · exact .inl (by rw [← hdrop, ← unify, h])
  · rw [← unify, h, List.dropWhile_append] at hdrop
    split at hdrop
    · rename_i hnone
      exact .inl (by rw [← hdrop, List.isEmpty_iff.mp hnone]; rfl)
    · exact .inr hdrop.symm

theorem Rejoined.delimited {text other : List Char} (h : Rejoined text other)
    (htext : Descent.Delimited text) : Descent.Delimited other := by
  cases text with
  | nil =>
    rw [rejoined_nil h]
    exact htext
  | cons c rest =>
    by_cases hend : isLineEnd c = true
    · have hhead : (unify (c :: rest)).head? = some '\n' := by simp [unify, unifyFrom, hend]
      intro d hd
      rcases h with h | h
      · rw [h, hd] at hhead
        cases hhead
        decide
      · rw [h, List.head?_append, hd] at hhead
        cases hhead
        decide
    · obtain ⟨rest', rfl, -⟩ := h.cons (by simpa using hend)
      exact htext

end Text

/-- The value with a newline for each line end in its strings. -/
def Value.unified : Value → Value
  | .string text => .string (String.ofList (Text.unify text.toList))
  | .pair head tail => .pair head.unified tail.unified
  | .closure params body frame => .closure params.unified body.unified frame
  | v => v

namespace Value

theorem unified_ofList (items : List Value) :
    (ofList items .nil).unified = ofList (items.map unified) .nil := by
  induction items with
  | nil => rfl
  | cons v items ih => exact congrArg (Value.pair v.unified) ih

theorem unified_eq {v : Value}
    (h : ∀ text, (Value.string text).OccursIn v → Text.EndsInNewlines text.toList) :
    v.unified = v := by
  induction v with
  | string text => rw [unified, (h text .self).unify_eq, String.ofList_toList]
  | pair head tail ihhead ihtail =>
    rw [unified, ihhead fun text htext => h text (.head tail htext),
      ihtail fun text htext => h text (.tail head htext)]
  | closure params body frame ihparams ihbody =>
    rw [unified, ihparams fun text htext => h text (.params body frame htext),
      ihbody fun text htext => h text (.body params frame htext)]
  | _ => rfl

end Value

/-- A fault apart from where it is. -/
def ReadFault.unplaced : ReadFault → ReadFault
  | .malformed sentinel _ => .malformed sentinel 0
  | .numeral fault => .numeral fault

namespace Reader

inductive Pending.Rejoined : Pending → Pending → Prop
  | list (start start' : Nat) (items : List Value) :
    Rejoined (.list start items) (.list start' (items.map Value.unified))
  | quote : Rejoined .quote .quote

end Reader

inductive Reading.Rejoined : Reading → Reading → Prop
  | ok (v : Value) (after after' : Cursor) (h : Text.Rejoined after.rest after'.rest) :
    Rejoined ⟨.ok v, after⟩ ⟨.ok v.unified, after'⟩
  | error {fault fault' : ReadFault} (h : fault.unplaced = fault'.unplaced)
    (place place' : Cursor) : Rejoined ⟨.error fault, place⟩ ⟨.error fault', place'⟩

namespace Reader

inductive Step.Rejoined : Step → Step → Prop
  | stop {reading reading' : Reading} (h : reading.Rejoined reading') :
    Rejoined (.stop reading) (.stop reading')
  | more {pending pending' : List Pending} {cursor cursor' : Cursor}
    (h : List.Forall₂ Pending.Rejoined pending pending')
    (htext : Text.Rejoined cursor.rest cursor'.rest) :
    Rejoined (.more pending cursor) (.more pending' cursor')

section

variable {pending pending' : List Pending}
  (hpending : List.Forall₂ Pending.Rejoined pending pending')
include hpending

theorem rejoined_missing (position position' : Nat) :
    (missing position pending).unplaced = (missing position' pending').unplaced := by
  cases hpending with
  | nil => rfl
  | cons h => cases h <;> rfl

theorem rejoined_supply (v : Value) (after after' : Cursor)
    (h : Text.Rejoined after.rest after'.rest) :
    (supply v after pending).Rejoined (supply v.unified after' pending') := by
  induction hpending generalizing v with
  | nil => exact .stop (.ok v after after' h)
  | cons hfirst hrest ih =>
    cases hfirst with
    | list start start' items => exact .more (.cons (.list start start' (v :: items)) hrest) h
    | quote => exact ih v.quotation

theorem rejoined_supplyAtom {r r' : Reading} (h : r.Rejoined r') :
    (supplyAtom pending r).Rejoined (supplyAtom pending' r') := by
  cases h with
  | ok v after after' h => exact rejoined_supply hpending v after after' h
  | error h place place' => exact .stop (.error h place place')

theorem rejoined_closeList {start start' : Cursor} {rest rest' : List Char}
    (h : Text.Rejoined rest rest') :
    (closeList start rest pending).Rejoined (closeList start' rest' pending') := by
  cases hpending with
  | nil => exact .stop (.error (by rfl) start start')
  | cons hfirst hrest =>
    cases hfirst with
    | list _ _ items =>
      have hsupply := rejoined_supply hrest (.ofList items.reverse .nil)
        ⟨start.offset + 1, rest⟩ ⟨start'.offset + 1, rest'⟩ h
      rwa [Value.unified_ofList, List.map_reverse] at hsupply
    | quote => exact .stop (.error (by rfl) start start')

end

theorem rejoined_readString (offset offset' : Nat) {rest rest' : List Char}
    (h : Text.Rejoined rest rest') :
    (readString offset rest).Rejoined (readString offset' rest') := by
  have hmark : Text.isLineEnd '"' = false := by decide
  by_cases hmem : '"' ∈ rest
  · -- The closing quote is no line end, so both strings end at the same one.
    obtain ⟨text, after, rfl, htext⟩ := List.eq_append_cons_of_mem hmem
    obtain ⟨after', rfl, hafter⟩ := h.append hmark
    have htext' : '"' ∉ Text.unify text := fun hmem => htext (Text.mem_of_mem_unifyFrom hmark hmem)
    rw [readString_of_not_mem htext, readString_of_not_mem htext']
    have hok := Reading.Rejoined.ok (.string (String.ofList text))
      ⟨offset + text.length + 2, after⟩ ⟨offset' + (Text.unify text).length + 2, after'⟩ hafter
    rwa [Value.unified, String.toList_ofList] at hok
  · rw [readString_of_unclosed hmem, readString_of_unclosed fun hmem' => hmem (h.mem hmark hmem')]
    exact .error (by rfl) _ _

theorem unified_tokenValue {c : Char} {tail : List Char} {v : Value}
    (h : tokenValue c tail = .ok v) : v.unified = v := by
  rcases tokenValue_cases h with ⟨name, rfl⟩ | ⟨x, rfl⟩
  · rfl
  · rcases Value.ofNumber_cases x with ⟨n, hx⟩ | hx <;> rw [hx] <;> rfl

theorem rejoined_readToken (offset offset' : Nat) (c : Char) {rest rest' : List Char}
    (h : Text.Rejoined rest rest') :
    (readToken offset c rest).Rejoined (readToken offset' c rest') := by
  have htail : ∀ d ∈ tokenTail rest, Text.isDelimiter d = false :=
    fun d hd => not_isDelimiter_of_mem_tokenTail hd
  have hends : ∀ d ∈ tokenTail rest, Text.isLineEnd d = false := by
    intro d hd
    have hnone := htail d hd
    simp only [Text.isDelimiter, Bool.or_eq_false_iff] at hnone
    exact Text.not_isLineEnd_of_not_isBlank hnone.1.1
  rw [← tokenTail_append_afterToken rest] at h
  obtain ⟨after', rfl, hafter⟩ := h.token hends
  obtain ⟨htail', hafter'⟩ :=
    tokenTail_of_delimited htail (hafter.delimited (delimited_afterToken rest))
  rw [readToken, readToken, htail', hafter']
  cases hvalue : tokenValue c (tokenTail rest) with
  | ok v =>
    have hok := Reading.Rejoined.ok v ⟨offset + 1 + (tokenTail rest).length, _⟩
      ⟨offset' + 1 + (tokenTail rest).length, _⟩ hafter
    rwa [unified_tokenValue hvalue] at hok
  | error fault => exact .error rfl _ _

theorem rejoined_step {pending pending' : List Pending}
    (hpending : List.Forall₂ Pending.Rejoined pending pending') {cursor cursor' : Cursor}
    (h : Text.Rejoined cursor.rest cursor'.rest) :
    (step pending cursor).Rejoined (step pending' cursor') := by
  have hskip : Text.Rejoined cursor.skipBlanks.rest cursor'.skipBlanks.rest := h.dropWhile
  rw [step, step]
  cases hrest : cursor.skipBlanks.rest with
  | nil =>
    rw [hrest] at hskip
    rw [Text.rejoined_nil hskip]
    exact .stop (.error (rejoined_missing hpending _ _) _ _)
  | cons c rest =>
    have hblank := not_blank_of_skipBlanks hrest
    have hend := Text.not_isLineEnd_of_not_isBlank hblank
    rw [hrest] at hskip
    -- What starts here is no line end, so it starts both texts and decides what is read.
    obtain ⟨rest', hrest', htext⟩ := hskip.cons hend
    rw [hrest']
    dsimp only
    rw [take, take]
    split
    · exact .more (.cons (.list _ _ []) hpending) htext
    split
    · exact .more (.cons .quote hpending) htext
    split
    · exact rejoined_closeList hpending htext
    refine rejoined_supplyAtom hpending ?_
    rw [readAtom, readAtom]
    split
    · exact rejoined_readString _ _ htext
    · exact rejoined_readToken _ _ c htext

theorem rejoined_readFrom {pending pending' : List Pending}
    (hpending : List.Forall₂ Pending.Rejoined pending pending') {cursor cursor' : Cursor}
    (h : Text.Rejoined cursor.rest cursor'.rest) :
    (readFrom pending cursor).Rejoined (readFrom pending' cursor') := by
  fun_induction readFrom pending cursor generalizing pending' cursor' with
  | case1 pending cursor reading hstep =>
    have hstep' := rejoined_step hpending h
    rw [hstep] at hstep'
    generalize hnext : step pending' cursor' = next at hstep'
    cases hstep' with
    | stop hreading => rwa [readFrom_of_stop hnext]
  | case2 pending cursor more after hstep ih =>
    have hstep' := rejoined_step hpending h
    rw [hstep] at hstep'
    generalize hnext : step pending' cursor' = next at hstep'
    cases hstep' with
    | more hmore htext =>
      rw [readFrom_of_more hnext]
      exact ih hmore htext

end Reader

namespace Script

theorem rejoined_readFrom {cursor cursor' : Cursor} (h : Text.Rejoined cursor.rest cursor'.rest) :
    (readFrom cursor').values = (readFrom cursor).values.map Value.unified ∧
    (readFrom cursor').fault.map ReadFault.unplaced =
      (readFrom cursor).fault.map ReadFault.unplaced := by
  induction cursor using readFrom_induction generalizing cursor' with
  | blank cursor hrest =>
    have hskip : Text.Rejoined cursor.skipBlanks.rest cursor'.skipBlanks.rest := h.dropWhile
    rw [hrest] at hskip
    rw [readFrom_of_blank hrest, readFrom_of_blank (Text.rejoined_nil hskip)]
    exact ⟨rfl, rfl⟩
  | item cursor v after hread ih =>
    have hread' : cursor.read.Rejoined cursor'.read := Reader.rejoined_readFrom .nil h
    rw [hread] at hread'
    generalize hother : cursor'.read = other at hread'
    cases hread' with
    | ok v after after' hafter =>
      obtain ⟨hvalues, hfault⟩ := ih hafter
      rw [readFrom_of_ok hread, readFrom_of_ok hother]
      exact ⟨congrArg (v.unified :: ·) hvalues, hfault⟩
  | fault cursor fault place hrest hread =>
    have hread' : cursor.read.Rejoined cursor'.read := Reader.rejoined_readFrom .nil h
    have hskip : Text.Rejoined cursor.skipBlanks.rest cursor'.skipBlanks.rest := h.dropWhile
    have hrest' : cursor'.skipBlanks.rest ≠ [] := by
      obtain ⟨c, rest, hcons⟩ := List.exists_cons_of_ne_nil hrest
      rw [hcons] at hskip
      obtain ⟨rest', hcons', -⟩ := hskip.cons (Text.not_isLineEnd_of_not_isBlank
        (Reader.not_blank_of_skipBlanks hcons))
      simp [hcons']
    rw [hread] at hread'
    generalize hother : cursor'.read = other at hread'
    cases hread' with
    | error hfault =>
      rw [readFrom_of_error hrest hread, readFrom_of_error hrest' hother]
      exact ⟨rfl, congrArg some hfault.symm⟩

end Script

theorem CodeScan.mem_of_mem_codeFrom {place : Place} {offset : Nat} {text : List Char}
    {entry : Nat × Char} (h : entry ∈ codeFrom [] place offset text) : entry.2 ∈ text := by
  induction text generalizing place offset with
  | nil => cases h
  | cons c rest ih =>
    rw [codeFrom_cons, List.mem_append] at h
    rcases h with h | h
    · split at h
      · rw [List.mem_singleton.mp h]
        exact List.mem_cons_self
      · cases h
    · exact List.mem_cons_of_mem c (ih h)

theorem stripComment_of_not_mem {line : List Char} (h : ';' ∉ line) :
    stripComment line = line := by
  have hnone : (CodeScan.codeChars line).find? (fun entry => entry.2 == ';') = none := by
    rw [List.find?_eq_none]
    intro entry hentry heq
    rw [beq_iff_eq] at heq
    exact h (heq ▸ CodeScan.mem_of_mem_codeFrom hentry)
  simp [stripComment, hnone]

theorem Text.rejoined_source {text : List Char} (h : ';' ∉ text) :
    Rejoined text (source (linesBy isLineEnd text)) := by
  have hkept : ∀ line ∈ linesBy isLineEnd text, stripComment line = line := by
    intro line hline
    apply stripComment_of_not_mem
    intro hmem
    rcases mem_of_mem_linesFrom hline hmem with hnone | htext
    · cases hnone
    · exact h htext
  rw [source, List.map_congr_left hkept, List.map_id']
  exact rejoined_joinLines text

namespace Session

/-- Where the same values are read, and faults that differ at most in their places, the results
and the store are the same; only the log may tell other places. -/
theorem run_congr {text text' : List Char}
    (hvalues : (Script.ofText text').values = (Script.ofText text).values)
    (hfault : (Script.ofText text').fault.map ReadFault.unplaced =
      (Script.ofText text).fault.map ReadFault.unplaced) (session : Session) :
    ((run text').run session).1 = ((run text).run session).1 ∧
    ((run text').run session).2.store = ((run text).run session).2.store := by
  rw [run, run, hvalues, run_bind, run_bind]
  rcases (evaluateAll (Script.ofText text).values).run session with ⟨result, mid⟩
  cases result with
  | error failure => exact ⟨rfl, rfl⟩
  | ok values =>
    generalize (Script.ofText text').fault = fault', (Script.ofText text).fault = fault at hfault
    rcases fault with _ | ⟨sentinel, position⟩ | fault <;>
      rcases fault' with _ | ⟨sentinel', position'⟩ | fault' <;>
      simp [ReadFault.unplaced] at hfault
    · exact ⟨rfl, rfl⟩
    · subst hfault
      exact ⟨rfl, rfl⟩
    · subst hfault
      exact ⟨rfl, rfl⟩

/-- Of a text without semicolons `eval` reads the values that `run` reads, with a newline for each
line end in their strings. If these line ends are newlines already, it gives the last result of
`run`, or fails as that does, and leaves the same store and the same lines pending. -/
theorem eval_eq_last_of_run {text : List Char} (hcomment : ';' ∉ text) (session : Session) :
    (Script.ofText (Text.source (Text.linesBy Text.isLineEnd text))).values =
      (Script.ofText text).values.map Value.unified ∧
    ((∀ v ∈ (Script.ofText text).values, ∀ string, (Value.string string).OccursIn v →
        Text.EndsInNewlines string.toList) →
      ((eval text).run session).1 =
        ((run text).run session).1.map (fun values => values.getLast?.getD .nil) ∧
      ((eval text).run session).2.store = ((run text).run session).2.store ∧
      ((eval text).run session).2.pending = ((run text).run session).2.pending) := by
  have hjoined := Text.rejoined_source hcomment
  rw [eval_eq]
  generalize Text.source (Text.linesBy Text.isLineEnd text) = joined at hjoined ⊢
  obtain ⟨hvalues, hfault⟩ := @Script.rejoined_readFrom (Cursor.ofText text)
    (Cursor.ofText joined) hjoined
  refine ⟨hvalues, fun hplain => ?_⟩
  have hsame : (Script.ofText text).values.map Value.unified = (Script.ofText text).values := by
    rw [List.map_congr_left fun v hv => Value.unified_eq (hplain v hv), List.map_id']
  obtain ⟨hresult, hstore⟩ := run_congr (hvalues.trans hsame) hfault session
  have hpending := keepsPending_run joined session
  rw [keepsPending_run text session, ← hresult, ← hstore, run_bind]
  rcases hrun : (run joined).run session with ⟨result, after⟩
  rw [hrun] at hpending
  cases result with
  | ok values => exact ⟨rfl, rfl, hpending⟩
  | error failure => exact ⟨rfl, rfl, hpending⟩

def endedText : List Char := "(set x\r\n'(a\u2028b\u0085\"c\nd\"))\r\r\n(cdr x)\x0B\n".toList

theorem eval_eq_last_of_run_endedText :
    ';' ∉ endedText ∧
    ((run endedText).run (start 50)).1 =
      .ok [.ofList [.symbol "a", .symbol "b", .string "c\nd"] .nil,
        .ofList [.symbol "b", .string "c\nd"] .nil] ∧
    ((eval endedText).run (start 50)).1 =
      .ok (.ofList [.symbol "b", .string "c\nd"] .nil) ∧
    ((eval endedText).run (start 50)).2.store = ((run endedText).run (start 50)).2.store := by
  have hcomment : ';' ∉ endedText := by decide
  have hrun : ((run endedText).run (start 50)).1 =
      .ok [.ofList [.symbol "a", .symbol "b", .string "c\nd"] .nil,
        .ofList [.symbol "b", .string "c\nd"] .nil] := by
    decide +kernel
  have hstrings : (Script.ofText endedText).values.flatMap Value.atoms =
      [.symbol "set", .symbol "x", .symbol "quote", .symbol "a", .symbol "b", .string "c\nd", .nil,
        .nil, .nil, .symbol "cdr", .symbol "x", .nil] := by
    decide +kernel
  have hplain : ∀ v ∈ (Script.ofText endedText).values, ∀ string,
      (Value.string string).OccursIn v → Text.EndsInNewlines string.toList := by
    intro v hv string hstring
    have hmem : Value.string string ∈ (Script.ofText endedText).values.flatMap Value.atoms :=
      List.mem_flatMap.mpr ⟨v, hv, hstring.atoms_subset List.mem_cons_self⟩
    simp only [hstrings, List.mem_cons, List.not_mem_nil, reduceCtorEq, Value.string.injEq,
      false_or, or_false] at hmem
    rw [hmem]
    decide
  have hagree := (eval_eq_last_of_run hcomment (start 50)).2 hplain
  exact ⟨hcomment, hrun, hagree.1.trans (by rw [hrun]; rfl), hagree.2.1⟩

/-- A carriage return in a string is one when the text is run, and a newline when it is
evaluated. -/
theorem eval_changes_string :
    ';' ∉ "\"a\rb\"".toList ∧
    ((run "\"a\rb\"".toList).run (start 50)).1 = .ok [.string "a\rb"] ∧
    ((eval "\"a\rb\"".toList).run (start 50)).1 = .ok (.string "a\nb") := by
  decide +kernel

end Session

end Lisplet
