import Lisplet.Proofs.ReaderRun
import Lisplet.Proofs.Trace

/-!
Reading a text and a longer one. What has been read, and a fault that is settled, stay when more
text follows; an expression that lacks its end goes on into what follows. Where a text starts
makes no difference to the values.
-/

set_option autoImplicit false

namespace Lisplet

def ReadFault.isEarlyEnd : ReadFault → Bool
  | .malformed .unexpectedCloseParen _ => false
  | .malformed _ _ => true
  | .numeral _ => false

def Cursor.append (cursor : Cursor) (more : List Char) : Cursor :=
  ⟨cursor.offset, cursor.rest ++ more⟩

def Reading.append (r : Reading) (more : List Char) : Reading := ⟨r.result, r.cursor.append more⟩

def Reading.Settled (r : Reading) : Prop :=
  ∀ fault, r.result = .error fault → fault.isEarlyEnd = false

theorem Reading.settled_ok (v : Value) (after : Cursor) : Settled ⟨.ok v, after⟩ := by
  intro fault h
  cases h

theorem Reading.settled_error {fault : ReadFault} (h : fault.isEarlyEnd = false)
    (place : Cursor) : Settled ⟨.error fault, place⟩ := by
  intro other hother
  cases hother
  exact h

theorem Cursor.skipBlanks_of_blanks {blanks : List Char}
    (h : ∀ c ∈ blanks, Text.isBlank c = true) (offset : Nat) (rest : List Char) :
    (Cursor.mk offset (blanks ++ rest)).skipBlanks =
      (Cursor.mk (offset + blanks.length) rest).skipBlanks := by
  simp [skipBlanks, List.takeWhile_append_of_pos h, List.dropWhile_append_of_pos h,
    Nat.add_assoc]

theorem Cursor.skipBlanks_append {cursor : Cursor} {c : Char} {rest : List Char}
    (h : cursor.skipBlanks.rest = c :: rest) (more : List Char) :
    (cursor.append more).skipBlanks = cursor.skipBlanks.append more := by
  have hblank := Reader.not_blank_of_skipBlanks h
  have hblanks : ∀ d ∈ cursor.rest.takeWhile Text.isBlank, Text.isBlank d = true :=
    fun d hd => List.mem_takeWhile_imp hd
  have hsplit : cursor.rest ++ more =
      cursor.rest.takeWhile Text.isBlank ++ c :: (rest ++ more) := by
    rw [← List.cons_append, ← h, ← List.append_assoc]
    exact congrArg (· ++ more) List.takeWhile_append_dropWhile.symm
  rw [append, hsplit, skipBlanks_of_blanks hblanks, Descent.skipBlanks_of_not_blank hblank,
    append, h]
  rfl

theorem Cursor.skipBlanks_append_of_nil {cursor : Cursor} (h : cursor.skipBlanks.rest = [])
    (more : List Char) : (cursor.append more).skipBlanks =
      (Cursor.mk (cursor.offset + cursor.rest.length) more).skipBlanks :=
  skipBlanks_of_blanks (List.dropWhile_eq_nil_iff.mp h) cursor.offset more

namespace Reader

def Step.append (more : List Char) : Step → Step
  | .stop reading => .stop (reading.append more)
  | .more pending cursor => .more pending (cursor.append more)

theorem isEarlyEnd_missing (position : Nat) (pending : List Pending) :
    (missing position pending).isEarlyEnd = true := by
  cases pending with
  | nil => rfl
  | cons p pending => cases p <;> rfl

theorem supply_append (v : Value) (cursor : Cursor) (pending : List Pending) (more : List Char) :
    (supply v cursor pending).append more = supply v (cursor.append more) pending := by
  induction pending generalizing v with
  | nil => rfl
  | cons p pending ih =>
    cases p with
    | list start items => rfl
    | quote => exact ih v.quotation

theorem supplyAtom_append (pending : List Pending) (r : Reading) (more : List Char) :
    (supplyAtom pending r).append more = supplyAtom pending (r.append more) := by
  rcases r with ⟨result, after⟩
  cases result with
  | ok v => exact supply_append v after pending more
  | error fault => rfl

theorem closeList_append (start : Cursor) (rest : List Char) (pending : List Pending)
    (more : List Char) : (closeList start rest pending).append more =
      closeList (start.append more) (rest ++ more) pending := by
  cases pending with
  | nil => rfl
  | cons p pending =>
    cases p with
    | list start items => exact supply_append _ _ pending more
    | quote => rfl

theorem readToken_append {rest more : List Char}
    (hmore : afterToken rest = [] → Descent.Delimited more) (offset : Nat) (c : Char) :
    readToken offset c (rest ++ more) = (readToken offset c rest).append more := by
  have hends : afterToken rest = [] → more.takeWhile (fun d => !Text.isDelimiter d) = [] ∧
      more.dropWhile (fun d => !Text.isDelimiter d) = more := by
    intro hall
    have hdelimited := hmore hall
    cases more with
    | nil => exact ⟨rfl, rfl⟩
    | cons d more =>
      have hd : Text.isDelimiter d = true := hdelimited d rfl
      simp [hd]
  have htail : tokenTail (rest ++ more) = tokenTail rest := by
    unfold tokenTail
    rw [List.takeWhile_append]
    split
    · next hall =>
      have hwhole := (List.takeWhile_prefix (fun d => !Text.isDelimiter d)).eq_of_length hall
      have hnone : afterToken rest = [] :=
        List.dropWhile_eq_nil_iff.mpr (List.takeWhile_eq_self_iff.mp hwhole)
      rw [(hends hnone).1, List.append_nil]
      exact hwhole.symm
    · rfl
  have hafter : afterToken (rest ++ more) = afterToken rest ++ more := by
    unfold afterToken
    rw [List.dropWhile_append]
    split
    · next hnone =>
      rw [(hends (List.isEmpty_iff.mp hnone)).2, List.isEmpty_iff.mp hnone, List.nil_append]
    · rfl
  simp only [readToken, htail, hafter]
  rfl

theorem readString_append {rest : List Char} (h : '"' ∈ rest) (offset : Nat)
    (more : List Char) :
    readString offset (rest ++ more) = (readString offset rest).append more := by
  obtain ⟨text, after, rfl, htext⟩ := List.eq_append_cons_of_mem h
  rw [List.append_assoc, List.cons_append, readString_of_not_mem htext,
    readString_of_not_mem htext]
  rfl

def Step.Settled (s : Step) : Prop :=
  ∀ fault place, s = .stop ⟨.error fault, place⟩ → fault.isEarlyEnd = false

def isTokenStart (c : Char) : Bool := c != '(' && c != '\'' && c != ')' && c != '"'

/-- A symbol or a number comes next and takes all that is left of the text. -/
def TokenToEnd (cursor : Cursor) : Prop :=
  ∃ c rest, cursor.skipBlanks.rest = c :: rest ∧ isTokenStart c = true ∧ afterToken rest = []

theorem take_append {pending : List Pending} {start : Cursor} {c : Char} {rest more : List Char}
    (hmore : isTokenStart c = true → afterToken rest = [] → Descent.Delimited more)
    (hsettled : (take pending start c rest).Settled) :
    take pending (start.append more) c (rest ++ more) =
      (take pending start c rest).append more := by
  unfold take at hsettled ⊢
  by_cases hopen : c = '('
  · simp only [hopen]
    rfl
  by_cases hquote : c = '\''
  · simp only [hquote]
    rfl
  by_cases hclose : c = ')'
  · subst hclose
    exact (closeList_append start rest pending more).symm
  simp only [hopen, hquote, hclose, beq_iff_eq, ↓reduceIte, readAtom, supplyAtom_append]
    at hsettled ⊢
  by_cases hstring : c = '"'
  · simp only [hstring, ↓reduceIte] at hsettled ⊢
    by_cases hmem : '"' ∈ rest
    · rw [← readString_append hmem]
      rfl
    · rw [readString_of_unclosed hmem] at hsettled
      cases hsettled _ _ rfl
  · simp only [hstring, ↓reduceIte] at hsettled ⊢
    have hstart : isTokenStart c = true := by simp [isTokenStart, hopen, hquote, hclose, hstring]
    rw [← readToken_append (hmore hstart)]
    rfl

theorem step_append {pending : List Pending} {cursor : Cursor} {more : List Char}
    (hmore : TokenToEnd cursor → Descent.Delimited more)
    (hsettled : (step pending cursor).Settled) :
    step pending (cursor.append more) = (step pending cursor).append more := by
  unfold step at hsettled ⊢
  cases hrest : cursor.skipBlanks.rest with
  | nil =>
    simp only [hrest] at hsettled
    have hend := hsettled _ _ rfl
    rw [isEarlyEnd_missing] at hend
    cases hend
  | cons c rest =>
    simp only [hrest] at hsettled
    have hlonger : (cursor.skipBlanks.append more).rest = c :: (rest ++ more) := by
      rw [Cursor.append, hrest, List.cons_append]
    rw [Cursor.skipBlanks_append hrest]
    simp only [hlonger]
    exact take_append (fun hstart hall => hmore ⟨c, rest, hrest, hstart, hall⟩) hsettled

theorem step_append_of_more {pending pending' : List Pending} {cursor cursor' : Cursor}
    {more : List Char} (hmore : TokenToEnd cursor → Descent.Delimited more)
    (hstep : step pending cursor = .more pending' cursor') :
    step pending (cursor.append more) = .more pending' (cursor'.append more) := by
  have hgoes : (step pending cursor).Settled := by
    intro fault place h
    rw [hstep] at h
    cases h
  rw [step_append hmore hgoes, hstep]
  rfl

theorem TokenToEnd.rest_step {cursor : Cursor} (h : TokenToEnd cursor) (pending : List Pending) :
    (step pending cursor).cursor.rest = [] := by
  obtain ⟨c, rest, hrest, hstart, hend⟩ := h
  simp only [isTokenStart, Bool.and_eq_true, bne_iff_ne, ne_eq] at hstart
  obtain ⟨⟨⟨hopen, hquote⟩, hclose⟩, hstring⟩ := hstart
  rw [step]
  simp only [hrest, take, readAtom, hopen, hquote, hclose, hstring, beq_iff_eq, ↓reduceIte,
    cursor_supplyAtom]
  exact hend

theorem Leads.append {pending last : List Pending} {cursor place : Cursor} {more : List Char}
    (h : Leads pending cursor last place) (hmore : place.rest = [] → Descent.Delimited more) :
    Leads pending (cursor.append more) last (place.append more) := by
  induction h with
  | here pending cursor => exact .here pending (cursor.append more)
  | @step pending pending' last cursor cursor' place hstep hafter ih =>
    have htoken : TokenToEnd cursor → Descent.Delimited more := by
      intro htoend
      have hnone := htoend.rest_step pending
      rw [hstep] at hnone
      have hle := hafter.length_le
      rw [show cursor'.rest = [] from hnone] at hle
      exact hmore (List.eq_nil_of_length_eq_zero (Nat.le_zero.mp hle))
    exact .step (step_append_of_more htoken hstep) (ih hmore)

/-- The last token that reading takes is a symbol or a number. -/
def EndsInToken (pending : List Pending) (cursor : Cursor) : Prop :=
  ∃ last place reading c rest, Leads pending cursor last place ∧
    step last place = .stop reading ∧ place.skipBlanks.rest = c :: rest ∧ isTokenStart c = true

/-- What is read of a text is read of a longer one, unless the text ends too early, or with a
symbol or a number that goes on. -/
theorem readFrom_longer {pending : List Pending} {cursor : Cursor} {more : List Char}
    (hmore : (readFrom pending cursor).cursor.rest = [] → EndsInToken pending cursor →
      Descent.Delimited more)
    (hsettled : (readFrom pending cursor).Settled) :
    readFrom pending (cursor.append more) = (readFrom pending cursor).append more := by
  obtain ⟨last, place, hleads, hstop⟩ := readFrom_leads pending cursor
  have hstep : (step last place).Settled := by
    intro fault after h
    rw [hstop] at h
    exact hsettled fault (by rw [Step.stop.inj h])
  have htoken : TokenToEnd place → Descent.Delimited more := by
    intro htoend
    have hnone := htoend.rest_step last
    rw [hstop] at hnone
    obtain ⟨c, rest, hrest, hstart, -⟩ := htoend
    exact hmore hnone ⟨last, place, _, c, rest, hleads, hstop, hrest, hstart⟩
  have hne : place.rest ≠ [] := by
    intro hnil
    have hearly := hstep _ place.skipBlanks (by rw [step]; simp [Cursor.skipBlanks, hnil]; rfl)
    rw [isEarlyEnd_missing] at hearly
    cases hearly
  have hstop' : step last (place.append more) = .stop ((readFrom pending cursor).append more) := by
    rw [step_append htoken hstep, hstop]
    rfl
  exact (hleads.append fun hnil => absurd hnil hne).readFrom_eq.trans (readFrom_of_stop hstop')

theorem readFrom_append {pending : List Pending} {cursor : Cursor} {more : List Char}
    (hmore : Descent.Delimited more) (hsettled : (readFrom pending cursor).Settled) :
    readFrom pending (cursor.append more) = (readFrom pending cursor).append more :=
  readFrom_longer (fun _ _ => hmore) hsettled

theorem Takes.of_isEarlyEnd {pending : List Pending} {offset : Nat} {text : List Char} {s : Step}
    {fault : ReadFault} {place : Cursor} (h : Takes pending offset text s)
    (hstep : s = .stop ⟨.error fault, place⟩) (hearly : fault.isEarlyEnd = true) :
    text = [] ∨ ∃ rest, text = '"' :: rest ∧ '"' ∉ rest := by
  cases h with
  | ended => exact .inl rfl
  | closes => exact absurd hstep (supply_ne_error _ _ _ _ _)
  | closesNone =>
    cases hstep
    cases hearly
  | string => exact absurd hstep (supply_ne_error _ _ _ _ _)
  | @unterminated rest hmem => exact .inr ⟨rest, rfl, hmem⟩
  | @token c tail =>
    cases hvalue : tokenValue c tail with
    | ok v =>
      rw [hvalue] at hstep
      exact absurd hstep (supply_ne_error _ _ _ _ _)
    | error numeral =>
      rw [hvalue] at hstep
      cases hstep
      cases hearly
  | _ => cases hstep

theorem step_string {cursor : Cursor} {rest : List Char} (h : cursor.skipBlanks.rest = '"' :: rest)
    (pending : List Pending) :
    step pending cursor = supplyAtom pending (readString cursor.skipBlanks.offset rest) := by
  rw [step]
  simp only [h]
  rfl

theorem length_step_append {pending : List Pending} {cursor place place' : Cursor}
    {more : List Char} {fault : ReadFault}
    (hstep : step pending cursor = .stop ⟨.error fault, place⟩)
    (hearly : fault.isEarlyEnd = true)
    (h : (step pending (cursor.append more)).place? = some place') :
    place'.rest.length < more.length := by
  rcases (takes_step pending cursor).of_isEarlyEnd hstep hearly with hrest | ⟨rest, hrest, hmem⟩
  · have hsame : step pending (cursor.append more) =
        step pending ⟨cursor.offset + cursor.rest.length, more⟩ := by
      rw [step, step, Cursor.skipBlanks_append_of_nil hrest]
    rw [hsame] at h
    exact length_step h
  · have hlonger : (cursor.append more).skipBlanks.rest = '"' :: (rest ++ more) := by
      rw [Cursor.skipBlanks_append hrest, Cursor.append, hrest, List.cons_append]
    rw [step_string hlonger] at h
    by_cases hclosed : '"' ∈ more
    · -- The string goes on to the first double quote of what is added.
      obtain ⟨text, after, rfl, htext⟩ := List.eq_append_cons_of_mem hclosed
      have hopen : '"' ∉ rest ++ text := by simp [hmem, htext]
      rw [← List.append_assoc, readString_of_not_mem hopen, supplyAtom, place?_supply] at h
      cases h
      simp only [List.length_append, List.length_cons]
      omega
    · have hopen : '"' ∉ rest ++ more := by simp [hmem, hclosed]
      rw [readString_of_unclosed hopen] at h
      cases h

theorem length_readFrom_append {pending : List Pending} {cursor after : Cursor}
    {more : List Char} {v : Value} (hmore : Descent.Delimited more)
    (hearly : ¬(readFrom pending cursor).Settled)
    (h : readFrom pending (cursor.append more) = ⟨.ok v, after⟩) :
    after.rest.length < more.length := by
  fun_induction readFrom pending cursor with
  | case1 pending cursor reading hstep =>
    rcases reading with ⟨result, place⟩
    cases result with
    | ok w => exact absurd (Reading.settled_ok w place) hearly
    | error fault =>
      have hfault : fault.isEarlyEnd = true := by
        by_contra hnot
        exact hearly (Reading.settled_error (by simpa using hnot) place)
      cases hnext : step pending (cursor.append more) with
      | stop reading =>
        rw [readFrom_of_stop hnext] at h
        subst h
        exact length_step_append hstep hfault (by rw [hnext]; rfl)
      | more pending' place' =>
        rw [readFrom_of_more hnext] at h
        have hlt : place'.rest.length < more.length :=
          length_step_append hstep hfault (by rw [hnext]; rfl)
        exact Nat.lt_trans (length_readFrom h) hlt
  | case2 pending cursor pending' cursor' hstep ih =>
    rw [readFrom_of_more (step_append_of_more (fun _ => hmore) hstep)] at h
    exact ih hearly h

end Reader

/-- What a reading gives besides places: the value, if there is one, and the text that is left. -/
def Reading.bare (r : Reading) : Option Value × List Char := (r.result.toOption, r.cursor.rest)

theorem Reading.bare_map (r : Reading) (f : Value → Value) :
    (r.map f).bare = (r.bare.1.map f, r.bare.2) := by
  rcases r with ⟨result, after⟩
  cases result <;> rfl

namespace Descent

theorem bare_readAtom (offset offset' : Nat) (c : Char) (rest : List Char) :
    (Reader.readAtom offset c rest).bare = (Reader.readAtom offset' c rest).bare := by
  unfold Reader.readAtom
  by_cases hstring : c = '"'
  · subst hstring
    simp only [beq_self_eq_true, ↓reduceIte]
    by_cases hmem : '"' ∈ rest
    · obtain ⟨text, after, rfl, htext⟩ := List.eq_append_cons_of_mem hmem
      rw [Reader.readString_of_not_mem htext, Reader.readString_of_not_mem htext]
      rfl
    · rw [Reader.readString_of_unclosed hmem, Reader.readString_of_unclosed hmem]
      rfl
  · simp only [beq_iff_eq, hstring, ↓reduceIte]
    rfl

theorem bare_eq (n : Nat) (text : List Char) (h : text.length < n) :
    (∀ offset offset', (expression ⟨offset, text⟩).bare = (expression ⟨offset', text⟩).bare) ∧
    ∀ start start' offset offset',
      (elements start ⟨offset, text⟩).bare = (elements start' ⟨offset', text⟩).bare := by
  induction n generalizing text with
  | zero => omega
  | succ n ih =>
    have hskip : ∀ offset, (Cursor.mk offset text).skipBlanks.rest = text.dropWhile Text.isBlank :=
      fun _ => rfl
    -- The elements of this text need what is said of its first expression.
    have hexpression : ∀ offset offset',
        (expression ⟨offset, text⟩).bare = (expression ⟨offset', text⟩).bare := by
      intro offset offset'
      rw [expression_eq, expression_eq, hskip, hskip]
      cases hrest : text.dropWhile Text.isBlank with
      | nil => simp [Reading.bare, hskip, hrest, Except.toOption]
      | cons c rest =>
        have hlt := @Cursor.length_of_skipBlanks ⟨0, text⟩ c rest hrest
        have hshorter := ih rest (Nat.lt_of_lt_of_le hlt (Nat.le_of_lt_succ h))
        dsimp only
        split
        · exact hshorter.2 _ _ _ _
        split
        · rw [Reading.bare_map, Reading.bare_map, hshorter.1]
        split
        · rfl
        · exact bare_readAtom _ _ c rest
    refine ⟨hexpression, fun start start' offset offset' => ?_⟩
    have hhead := hexpression offset offset'
    have hshortens := expression_shortens ⟨offset, text⟩
    rw [elements_eq, elements_eq, hskip, hskip]
    cases hrest : text.dropWhile Text.isBlank with
    | nil => simp [Reading.bare, hskip, hrest, Except.toOption]
    | cons c rest =>
      dsimp only
      split
      · rfl
      rcases hread : expression ⟨offset, text⟩ with ⟨result, after⟩
      rcases hread' : expression ⟨offset', text⟩ with ⟨result', after'⟩
      rw [hread, hread'] at hhead
      rw [hread] at hshortens
      cases result with
      | error fault =>
        cases result' with
        | error fault' => simpa [Reading.bare, Except.toOption] using hhead
        | ok head' => simp [Reading.bare, Except.toOption] at hhead
      | ok head =>
        cases result' with
        | error fault' => simp [Reading.bare, Except.toOption] at hhead
        | ok head' =>
          have hlt : after.rest.length < text.length := hshortens head rfl
          have hshorter := ih after.rest (Nat.lt_of_lt_of_le hlt (Nat.le_of_lt_succ h))
          simp only [Reading.bare, Except.toOption, Prod.mk.injEq, Option.some.injEq] at hhead
          rcases after' with ⟨stop', rest'⟩
          obtain ⟨rfl, rfl⟩ := hhead
          dsimp only
          rw [Reading.bare_map, Reading.bare_map, hshorter.2 start start' after.offset stop']

end Descent

theorem Cursor.bare_read (text : List Char) (offset offset' : Nat) :
    (Cursor.mk offset text).read.bare = (Cursor.mk offset' text).read.bare := by
  unfold Cursor.read
  rw [Descent.readFrom_eq_descend, Descent.readFrom_eq_descend]
  exact (Descent.bare_eq _ text (Nat.lt_succ_self _)).1 offset offset'

theorem Cursor.read_append {cursor : Cursor} {more : List Char}
    (hmore : Descent.Delimited more) (h : cursor.read.Settled) :
    (cursor.append more).read = cursor.read.append more := Reader.readFrom_append hmore h

theorem Cursor.read_append_of_ok {cursor after : Cursor} {more : List Char} {v : Value}
    (hmore : Descent.Delimited more) (h : cursor.read = ⟨.ok v, after⟩) :
    (cursor.append more).read = ⟨.ok v, after.append more⟩ := by
  rw [read_append hmore (h ▸ Reading.settled_ok v after), h]
  rfl

namespace Script

theorem readFrom_of_blank {cursor : Cursor} (h : cursor.skipBlanks.rest = []) :
    readFrom cursor = ⟨[], none, cursor.skipBlanks.offset⟩ := by
  rw [readFrom_eq, h]
  rfl

theorem rest_of_read {cursor after : Cursor} {v : Value} (h : cursor.read = ⟨.ok v, after⟩) :
    cursor.skipBlanks.rest ≠ [] := by
  intro hnil
  have hlt := Cursor.length_read (cursor.read_skipBlanks.trans h)
  rw [hnil] at hlt
  exact Nat.not_lt_zero _ hlt

theorem readFrom_of_ok {cursor after : Cursor} {v : Value} (h : cursor.read = ⟨.ok v, after⟩) :
    readFrom cursor =
      { readFrom after with items := ⟨v, after.offset⟩ :: (readFrom after).items } := by
  rw [readFrom_eq, h, if_neg (by simpa [List.isEmpty_iff] using rest_of_read h)]
  rfl

theorem readFrom_of_error {cursor place : Cursor} {fault : ReadFault}
    (hrest : cursor.skipBlanks.rest ≠ []) (h : cursor.read = ⟨.error fault, place⟩) :
    readFrom cursor = ⟨[], some fault, place.offset⟩ := by
  rw [readFrom_eq, h, if_neg (by simpa [List.isEmpty_iff] using hrest)]
  rfl

/-- Induction along the expressions of a script. -/
@[elab_as_elim]
theorem readFrom_induction {motive : Cursor → Prop}
    (blank : ∀ cursor, cursor.skipBlanks.rest = [] → motive cursor)
    (item : ∀ cursor v after, cursor.read = ⟨.ok v, after⟩ → motive after → motive cursor)
    (fault : ∀ cursor fault place, cursor.skipBlanks.rest ≠ [] →
      cursor.read = ⟨.error fault, place⟩ → motive cursor)
    (cursor : Cursor) : motive cursor := by
  induction hn : cursor.rest.length using Nat.strongRecOn generalizing cursor with
  | ind n ih =>
    by_cases hrest : cursor.skipBlanks.rest = []
    · exact blank cursor hrest
    · rcases hread : cursor.read with ⟨result, after⟩
      cases result with
      | ok v => exact item cursor v after hread (ih _ (hn ▸ Cursor.length_read hread) after rfl)
      | error other => exact fault cursor other after hrest hread

theorem fault_readFrom_append {cursor : Cursor} {more : List Char} {fault : ReadFault}
    (hmore : Descent.Delimited more) (h : (readFrom cursor).fault = some fault)
    (hsettled : fault.isEarlyEnd = false) :
    (readFrom (cursor.append more)).fault = some fault := by
  induction cursor using readFrom_induction with
  | blank cursor hrest =>
    rw [readFrom_of_blank hrest] at h
    cases h
  | item cursor v after hread ih =>
    rw [readFrom_of_ok hread] at h
    rw [readFrom_of_ok (Cursor.read_append_of_ok hmore hread)]
    exact ih h
  | fault cursor other place hrest hread =>
    rw [readFrom_of_error hrest hread] at h
    cases h
    have hlonger : (cursor.append more).read = ⟨.error fault, place.append more⟩ := by
      rw [Cursor.read_append hmore (hread ▸ Reading.settled_error hsettled place), hread]
      rfl
    obtain ⟨c, rest, hcons⟩ := List.exists_cons_of_ne_nil hrest
    have hrest' : (cursor.append more).skipBlanks.rest ≠ [] := by
      rw [Cursor.skipBlanks_append hcons, Cursor.append, hcons]
      exact List.cons_ne_nil _ _
    rw [readFrom_of_error hrest' hlonger]

theorem readFrom_move (cursor : Cursor) (offset : Nat) :
    (readFrom cursor).values = (readFrom ⟨offset, cursor.rest⟩).values ∧
    (readFrom cursor).fault.isNone = (readFrom ⟨offset, cursor.rest⟩).fault.isNone := by
  induction cursor using readFrom_induction generalizing offset with
  | blank cursor hrest =>
    have hmoved : (Cursor.mk offset cursor.rest).skipBlanks.rest = [] := hrest
    rw [readFrom_of_blank hrest, readFrom_of_blank hmoved]
    exact ⟨rfl, rfl⟩
  | item cursor v after hread ih =>
    have hbare := Cursor.bare_read cursor.rest cursor.offset offset
    rw [hread] at hbare
    rcases hmoved : (Cursor.mk offset cursor.rest).read with ⟨result, place⟩
    rw [hmoved] at hbare
    cases result with
    | error fault => simp [Reading.bare, Except.toOption] at hbare
    | ok w =>
      rcases place with ⟨stop, rest⟩
      simp only [Reading.bare, Except.toOption, Prod.mk.injEq, Option.some.injEq] at hbare
      obtain ⟨rfl, rfl⟩ := hbare
      obtain ⟨hvalues, hfault⟩ := ih stop
      rw [readFrom_of_ok hread, readFrom_of_ok hmoved]
      exact ⟨congrArg (v :: ·) hvalues, hfault⟩
  | fault cursor fault place hrest hread =>
    have hbare := Cursor.bare_read cursor.rest cursor.offset offset
    rw [hread] at hbare
    rcases hmoved : (Cursor.mk offset cursor.rest).read with ⟨result, place'⟩
    rw [hmoved] at hbare
    cases result with
    | ok w => simp [Reading.bare, Except.toOption] at hbare
    | error fault' =>
      have hrest' : (Cursor.mk offset cursor.rest).skipBlanks.rest ≠ [] := hrest
      rw [readFrom_of_error hrest hread, readFrom_of_error hrest' hmoved]
      exact ⟨rfl, rfl⟩

end Script

end Lisplet
