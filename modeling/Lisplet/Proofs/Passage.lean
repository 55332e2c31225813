import Lisplet.Proofs.LiteralAgreement
import Lisplet.Proofs.LongerText

/-!
Passages: the stretches of a text that hold complete expressions and white space alone. A text
can be cut where a passage ends at a newline: both parts are read as they are together, and their
depths add up.
-/

set_option autoImplicit false

namespace Lisplet

open CodeScan

theorem CodeScan.depthOf_codeFrom (place : Place) (offset offset' : Nat) (text : List Char) :
    depthOf (codeFrom [] place offset text) = depthOf (codeFrom [] place offset' text) := by
  induction text generalizing place offset offset' with
  | nil => rfl
  | cons c rest ih =>
    rw [codeFrom_cons, codeFrom_cons, depthOf_append, depthOf_append,
      ih (place.next c) (offset + 1) (offset' + 1)]
    split <;> rfl

namespace Cursor

def Reaches (a b : Cursor) : Prop :=
  ∃ part, a.rest = part ++ b.rest ∧ b.offset = a.offset + part.length

namespace Reaches

theorem refl (a : Cursor) : Reaches a a := ⟨[], rfl, rfl⟩

theorem trans {a b c : Cursor} (hab : Reaches a b) (hbc : Reaches b c) : Reaches a c := by
  obtain ⟨part, hpart, hoffset⟩ := hab
  obtain ⟨more, hmore, hmoved⟩ := hbc
  refine ⟨part ++ more, by rw [hpart, hmore, List.append_assoc], ?_⟩
  rw [hmoved, hoffset, List.length_append, Nat.add_assoc]

theorem of_part (offset : Nat) (part rest : List Char) :
    Reaches ⟨offset, part ++ rest⟩ ⟨offset + part.length, rest⟩ := ⟨part, rfl, rfl⟩

theorem skipBlanks (cursor : Cursor) : Reaches cursor cursor.skipBlanks :=
  ⟨cursor.rest.takeWhile Text.isBlank, List.takeWhile_append_dropWhile.symm, rfl⟩

theorem length_le {a b : Cursor} (h : Reaches a b) : b.rest.length ≤ a.rest.length := by
  obtain ⟨part, hpart, -⟩ := h
  rw [hpart, List.length_append]
  exact Nat.le_add_left _ _

theorem end_eq {a b : Cursor} (h : Reaches a b) :
    b.offset + b.rest.length = a.offset + a.rest.length := by
  obtain ⟨part, hpart, hoffset⟩ := h
  rw [hpart, hoffset, List.length_append, Nat.add_assoc]

end Reaches

end Cursor

namespace Reader

theorem Takes.reaches {pending : List Pending} {offset : Nat} {text : List Char} {s : Step}
    (h : Takes pending offset text s) : Cursor.Reaches ⟨offset, text⟩ s.cursor := by
  cases h with
  | ended => exact .refl _
  | opens rest => exact .of_part offset ['('] rest
  | quotes rest => exact .of_part offset ['\''] rest
  | closes rest =>
    rw [cursor_supply]
    exact .of_part offset [')'] rest
  | closesNone => exact .refl _
  | @string text rest =>
    rw [cursor_supply]
    refine ⟨'"' :: (text ++ ['"']), by simp, ?_⟩
    simp [Nat.add_assoc]
  | unterminated => exact .refl _
  | @token c tail rest =>
    have hpart : Cursor.Reaches ⟨offset, c :: (tail ++ rest)⟩ ⟨offset + 1 + tail.length, rest⟩ :=
      ⟨c :: tail, rfl, by simp only [List.length_cons]; omega⟩
    cases tokenValue c tail with
    | ok v =>
      change Cursor.Reaches _ (supply v _ pending).cursor
      rw [cursor_supply]
      exact hpart
    | error fault => exact hpart

theorem step_reaches (pending : List Pending) (cursor : Cursor) :
    Cursor.Reaches cursor (step pending cursor).cursor :=
  (Cursor.Reaches.skipBlanks cursor).trans (takes_step pending cursor).reaches

theorem readFrom_reaches (pending : List Pending) (cursor : Cursor) :
    Cursor.Reaches cursor (readFrom pending cursor).cursor := by
  fun_induction readFrom pending cursor with
  | case1 pending cursor reading hstep =>
    have hreaches := step_reaches pending cursor
    rwa [hstep] at hreaches
  | case2 pending cursor pending' cursor' hstep ih =>
    have hreaches := step_reaches pending cursor
    rw [hstep] at hreaches
    exact hreaches.trans ih

theorem read_reaches {cursor after : Cursor} {v : Value} (h : cursor.read = ⟨.ok v, after⟩) :
    cursor.Reaches after := by
  have hreaches := readFrom_reaches [] cursor
  rwa [show readFrom [] cursor = ⟨.ok v, after⟩ from h] at hreaches

theorem stretch_readFrom {pending : List Pending} {cursor after : Cursor} {v : Value}
    (h : readFrom pending cursor = ⟨.ok v, after⟩) :
    ∃ literals, Stretch literals (0 - openLists pending) cursor after := by
  fun_induction readFrom pending cursor with
  | case1 pending cursor reading hstep =>
    have hstretch := stretch_step pending cursor
    subst h
    rw [hstep] at hstretch
    exact ⟨_, hstretch⟩
  | case2 pending cursor pending' cursor' hstep ih =>
    have hstretch := stretch_step pending cursor
    rw [hstep] at hstretch
    obtain ⟨literals, hrest⟩ := ih h
    exact ⟨_, hstretch.trans_of_depth hrest⟩

end Reader

/-- From one place to another there are these expressions and white space. -/
inductive Passes : Cursor → List ScriptItem → Cursor → Prop
  | here (cursor : Cursor) : Passes cursor [] cursor
  | blank {c : Char} {offset : Nat} {rest : List Char} {items : List ScriptItem} {after : Cursor}
    (h : Text.isBlank c = true) (hafter : Passes ⟨offset + 1, rest⟩ items after) :
    Passes ⟨offset, c :: rest⟩ items after
  | item {cursor place after : Cursor} {v : Value} {items : List ScriptItem}
    (h : cursor.read = ⟨.ok v, place⟩) (hafter : Passes place items after) :
    Passes cursor (⟨v, place.offset⟩ :: items) after

namespace Passes

theorem trans {a b c : Cursor} {items more : List ScriptItem} (hab : Passes a items b)
    (hbc : Passes b more c) : Passes a (items ++ more) c := by
  induction hab with
  | here => exact hbc
  | blank hblank _ ih => exact .blank hblank (ih hbc)
  | item hread _ ih => exact .item hread (ih hbc)

theorem of_blanks {blanks : List Char} (h : ∀ c ∈ blanks, Text.isBlank c = true) (offset : Nat)
    (rest : List Char) :
    Passes ⟨offset, blanks ++ rest⟩ [] ⟨offset + blanks.length, rest⟩ := by
  induction blanks generalizing offset with
  | nil => exact .here _
  | cons c blanks ih =>
    have hpasses := ih (fun d hd => h d (by simp [hd])) (offset + 1)
    rw [List.length_cons, Nat.add_comm blanks.length, ← Nat.add_assoc]
    exact .blank (h c (by simp)) hpasses

theorem reaches {a b : Cursor} {items : List ScriptItem} (h : Passes a items b) :
    a.Reaches b := by
  induction h with
  | here => exact .refl _
  | @blank c offset rest items after hblank _ ih =>
    exact (Cursor.Reaches.of_part offset [c] rest).trans ih
  | item hread _ ih => exact (Reader.read_reaches hread).trans ih

theorem readFrom_eq {a b : Cursor} {items : List ScriptItem} (h : Passes a items b) :
    Script.readFrom a =
      { Script.readFrom b with items := items ++ (Script.readFrom b).items } := by
  induction h with
  | here => rfl
  | @blank c offset rest items after hblank _ ih =>
    rw [← ih, Script.readFrom_eq, Script.readFrom_eq ⟨offset + 1, rest⟩,
      ← Cursor.read_skipBlanks, Descent.skipBlanks_of_blank hblank, Cursor.read_skipBlanks]
  | item hread _ ih =>
    rw [Script.readFrom_of_ok hread, ih]
    rfl

theorem append {a b : Cursor} {items : List ScriptItem} {more : List Char}
    (hmore : Descent.Delimited more) (h : Passes a items b) :
    Passes (a.append more) items (b.append more) := by
  induction h with
  | here => exact .here _
  | blank hblank _ ih => exact .blank hblank ih
  | item hread _ ih =>
    have hitem := Passes.item (Cursor.read_append_of_ok hmore hread) ih
    exact hitem

theorem of_append {a : Cursor} {items : List ScriptItem} {more : List Char} {stop : Nat}
    (hmore : Descent.Delimited more) (h : Passes (a.append more) items ⟨stop, more⟩) :
    Passes a items ⟨stop, []⟩ := by
  generalize hstart : a.append more = start at h
  generalize hend : Cursor.mk stop more = last at h
  induction h generalizing a with
  | here cursor =>
    rcases a with ⟨offset, text⟩
    obtain ⟨rfl, htext⟩ := Cursor.mk.inj (hstart.trans hend.symm)
    have hnil : text = [] := List.append_left_eq_self.mp htext
    subst hnil
    exact .here _
  | @blank c offset rest items after hblank hafter ih =>
    rcases a with ⟨start, text⟩
    obtain ⟨rfl, htext⟩ := Cursor.mk.inj hstart
    cases text with
    | nil =>
      -- The blank would be the first of `more`, and the passage would end before it.
      have hle := hafter.reaches.length_le
      rw [← hend, show more = c :: rest from htext] at hle
      exact absurd hle (Nat.not_succ_le_self _)
    | cons d text =>
      obtain ⟨rfl, rfl⟩ := List.cons.inj htext
      exact .blank hblank (@ih ⟨start + 1, text⟩ rfl hend)
  | @item cursor place after v items hread hafter ih =>
    subst hstart hend
    by_cases hsettled : a.read.Settled
    · rw [Cursor.read_append hmore hsettled] at hread
      rcases hresult : a.read with ⟨result, inner⟩
      rw [hresult] at hread
      obtain ⟨rfl, rfl⟩ := Reading.mk.inj hread
      have hitem := Passes.item hresult (@ih inner rfl rfl)
      exact hitem
    · -- Without its end here, the expression would end inside `more`.
      have hlt := Reader.length_readFrom_append hmore hsettled hread
      have hle := hafter.reaches.length_le
      exact absurd hlt (Nat.not_lt_of_le hle)

theorem code {a b : Cursor} {items : List ScriptItem} (h : Passes a items b) :
    ∃ found, a.code = found ++ b.code ∧ depthOf found = 0 := by
  induction h with
  | here => exact ⟨[], rfl, rfl⟩
  | @blank c offset rest items after hblank _ ih =>
    obtain ⟨later, hlater, hdepth⟩ := ih
    have hblanks : ∀ d ∈ [c], Text.isBlank d = true := by simpa using hblank
    have hcode := codeFrom_blanks hblanks offset rest
    have hweight := depthOf_numbered (fun d hd =>
      Stretch.parenWeight_of_class (by decide) (by decide) (hblanks d hd)) offset
    refine ⟨numbered offset [c] ++ later, ?_, by rw [depthOf_append, hweight, hdepth]; rfl⟩
    rw [List.append_assoc, ← hlater]
    exact hcode
  | @item cursor place after v items hread _ ih =>
    obtain ⟨later, hlater, hdepth⟩ := ih
    obtain ⟨literals, hstretch⟩ := Reader.stretch_readFrom hread
    obtain ⟨found, hfound, hzero, -⟩ := hstretch.code
    refine ⟨found ++ later, by rw [hfound, hlater, List.append_assoc], ?_⟩
    rw [depthOf_append, hdepth, hzero]
    rfl

theorem of_fault_none {cursor : Cursor} (h : (Script.readFrom cursor).fault = none) :
    Passes cursor (Script.readFrom cursor).items ⟨cursor.offset + cursor.rest.length, []⟩ := by
  induction cursor using Script.readFrom_induction with
  | blank cursor hrest =>
    have hblanks := of_blanks (List.dropWhile_eq_nil_iff.mp hrest) cursor.offset []
    rw [Script.readFrom_of_blank hrest]
    rwa [List.append_nil] at hblanks
  | item cursor v after hread ih =>
    rw [Script.readFrom_of_ok hread] at h ⊢
    have hpasses := ih h
    rw [(Reader.read_reaches hread).end_eq] at hpasses
    exact .item hread hpasses
  | fault cursor fault place hrest hread =>
    rw [Script.readFrom_of_error hrest hread] at h
    cases h

theorem fault_eq_none {cursor : Cursor} {items : List ScriptItem} {stop : Nat}
    (h : Passes cursor items ⟨stop, []⟩) : (Script.readFrom cursor).fault = none := by
  rw [h.readFrom_eq, Script.readFrom_of_blank rfl]

theorem of_mem_items {cursor : Cursor} {item : ScriptItem}
    (h : item ∈ (Script.readFrom cursor).items) :
    ∃ items place, Passes cursor items place ∧ place.offset = item.stop := by
  induction cursor using Script.readFrom_induction with
  | blank cursor hrest =>
    rw [Script.readFrom_of_blank hrest] at h
    cases h
  | item cursor v after hread ih =>
    rw [Script.readFrom_of_ok hread] at h
    rcases List.mem_cons.mp h with rfl | hmem
    · exact ⟨_, after, .item hread (.here after), rfl⟩
    · obtain ⟨items, place, hpasses, hstop⟩ := ih hmem
      exact ⟨_, place, .item hread hpasses, hstop⟩
  | fault cursor fault place hrest hread =>
    rw [Script.readFrom_of_error hrest hread] at h
    cases h

theorem parenDepth_eq_rest {text rest : List Char} {items : List ScriptItem} {stop : Nat}
    (h : Passes ⟨0, text⟩ items ⟨stop, rest⟩) : parenDepth text = parenDepth rest := by
  obtain ⟨found, hfound, hdepth⟩ := h.code
  rw [parenDepth_eq, parenDepth_eq, codeChars,
    show codeFrom [] .boundary 0 text = _ from hfound, depthOf_append, hdepth, Int.zero_add]
  exact depthOf_codeFrom .boundary stop 0 rest

end Passes

/-- A place of a text outside its expressions: since the one before it, or since the start, there
is only white space. -/
def Script.IsBetween (text : List Char) (i : Nat) : Prop :=
  ∃ stop ∈ 0 :: (Script.ofText text).items.map ScriptItem.stop,
    stop ≤ i ∧ Text.isBlankText ((text.take i).drop stop) = true

theorem Script.IsBetween.passes {head rest : List Char}
    (h : IsBetween (head ++ rest) head.length) :
    ∃ items, Passes ⟨0, head ++ rest⟩ items ⟨head.length, rest⟩ := by
  obtain ⟨stop, hmem, hle, hblank⟩ := h
  obtain ⟨items, place, hpasses, hstop⟩ :
      ∃ items place, Passes ⟨0, head ++ rest⟩ items place ∧ place.offset = stop := by
    rcases List.mem_cons.mp hmem with rfl | hmem
    · exact ⟨[], _, .here _, rfl⟩
    · obtain ⟨item, hitem, rfl⟩ := List.mem_map.mp hmem
      exact Passes.of_mem_items hitem
  obtain ⟨part, hpart, hoffset⟩ := hpasses.reaches
  rcases place with ⟨offset, text⟩
  subst hstop
  rw [Nat.zero_add] at hoffset
  subst hoffset
  -- The head goes on behind the expressions, with white space alone.
  obtain ⟨blanks, rfl⟩ : ∃ blanks, head = part ++ blanks := by
    have hprefix : part <+: head ++ rest := ⟨text, hpart.symm⟩
    obtain ⟨blanks, hblanks⟩ := List.prefix_of_prefix_length_le hprefix ⟨rest, rfl⟩ hle
    exact ⟨blanks, hblanks.symm⟩
  rw [List.append_assoc] at hpart
  have htext : text = blanks ++ rest := (List.append_cancel_left hpart).symm
  subst htext
  have hall : ∀ c ∈ blanks, Text.isBlank c = true := by
    rw [List.take_left, List.drop_left] at hblank
    exact List.all_eq_true.mp hblank
  refine ⟨items, ?_⟩
  have hpassed := hpasses.trans (Passes.of_blanks hall part.length rest)
  rwa [List.append_nil, ← List.length_append] at hpassed

theorem Descent.delimited_newline (tail : List Char) : Delimited ('\n' :: tail) := by
  intro c hc
  obtain rfl := Option.some.inj hc
  decide

namespace Script

theorem fault_of_isBetween {head tail : List Char}
    (h : IsBetween (head ++ '\n' :: tail) head.length) : (ofText head).fault = none := by
  obtain ⟨items, hpasses⟩ := h.passes
  have hmore := Descent.delimited_newline tail
  exact (@Passes.of_append ⟨0, head⟩ items _ _ hmore hpasses).fault_eq_none

theorem passes_newline {head : List Char} (h : (ofText head).fault = none) (tail : List Char) :
    Passes ⟨0, head ++ '\n' :: tail⟩ (ofText head).items ⟨head.length + 1, tail⟩ := by
  have hhead := (Passes.of_fault_none h).append (Descent.delimited_newline tail)
  have hblank : Text.isBlank '\n' = true := by decide
  have hnewline : Passes ⟨0 + head.length, '\n' :: tail⟩ [] ⟨0 + head.length + 1, tail⟩ :=
    .blank hblank (.here _)
  have hpasses := hhead.trans hnewline
  rwa [List.append_nil, Nat.zero_add] at hpasses

theorem values_newline {head : List Char} (h : (ofText head).fault = none) (tail : List Char) :
    (ofText (head ++ '\n' :: tail)).values = (ofText head).values ++ (ofText tail).values := by
  have hmove := (readFrom_move ⟨head.length + 1, tail⟩ 0).1
  rw [ofText, Cursor.ofText, (passes_newline h tail).readFrom_eq, values, List.map_append]
  exact congrArg _ hmove

theorem fault_newline {head : List Char} (h : (ofText head).fault = none) (tail : List Char) :
    (ofText (head ++ '\n' :: tail)).fault = none ↔ (ofText tail).fault = none := by
  have hmove := (readFrom_move ⟨head.length + 1, tail⟩ 0).2
  rw [ofText, Cursor.ofText, (passes_newline h tail).readFrom_eq, ← Option.isNone_iff_eq_none,
    ← Option.isNone_iff_eq_none]
  exact iff_of_eq (congrArg (· = true) hmove)

end Script

theorem parenDepth_newline {head : List Char} (h : (Script.ofText head).fault = none)
    (tail : List Char) : parenDepth (head ++ '\n' :: tail) = parenDepth tail :=
  (Script.passes_newline h tail).parenDepth_eq_rest

theorem parenDepth_of_fault_none {text : List Char} (h : (Script.ofText text).fault = none) :
    parenDepth text = 0 := (Passes.of_fault_none h).parenDepth_eq_rest

theorem parenDepth_append_newline (head : List Char) :
    parenDepth (head ++ ['\n']) = parenDepth head := by
  have hlast : depthOf (codeFrom [] (Place.boundary.after head) (0 + head.length) ['\n']) = 0 := by
    cases Place.boundary.after head <;> rfl
  rw [parenDepth_eq, parenDepth_eq, codeChars, codeFrom_append, depthOf_append, hlast,
    Int.add_zero]
  rfl

theorem parenDepth_nonneg {head tail : List Char}
    (h : (Script.ofText (head ++ '\n' :: tail)).fault = none) : 0 ≤ parenDepth head := by
  -- Any other fault would still be there in the whole text.
  have hsettled : ∀ fault, (Trace.ofText head).fault = some fault → fault.isEarlyEnd = true := by
    intro fault hfault
    have hscript : (Script.readFrom ⟨0, head⟩).fault = some fault := by
      rw [← hfault]
      exact congrArg Script.fault (Trace.toScript_ofText head).symm
    by_contra hnot
    have hstays := Script.fault_readFrom_append (Descent.delimited_newline tail) hscript
      (by simpa using hnot)
    cases h.symm.trans hstays
  have hcode : (Trace.ofText head).place.code = [] := by
    refine (Trace.halted_readFrom [] (Cursor.ofText head)).code_eq_nil ?_ ?_ <;>
      intro other hother <;> cases hsettled _ hother
  rw [parenDepth_eq_openLists head hcode]
  exact Int.natCast_nonneg _

end Lisplet
