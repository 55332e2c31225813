import Lisplet.Proofs.SessionRun
import Lisplet.Proofs.SoundEvaluation
import Lisplet.Proofs.Trace

/-!
Sound sessions. What is read from a text is sound, so a session that starts with nothing bound
keeps its store sound and gives sound values, whatever it is asked to do.
-/

set_option autoImplicit false

namespace Lisplet

variable {p : Value → Prop} {size : Nat}

namespace Reader

def Pending.Sound (p : Value → Prop) : Pending → Prop
  | .list _ items => ∀ v ∈ items, v.Sound p 0
  | .quote => True

def Step.Sound (p : Value → Prop) : Step → Prop
  | .stop reading => ∀ v, reading.result = .ok v → v.Sound p 0
  | .more pending _ => ∀ entry ∈ pending, entry.Sound p

theorem tokenValue_cases {c : Char} {tail : List Char} {v : Value}
    (h : tokenValue c tail = .ok v) :
    (∃ name, v = .symbol name) ∨ ∃ x : Binary64, v = .ofNumber x := by
  unfold tokenValue at h
  split at h
  · rename_i number hnumber
    subst h
    split at hnumber
    · unfold Value.ofNumeral? at hnumber
      split at hnumber
      · cases hnumber
      · cases hnumber
      · cases hnumber
        exact .inr ⟨_, rfl⟩
    · cases hnumber
  · cases h
    exact .inl ⟨_, rfl⟩

variable (rule : Value.AtomRule p)
include rule

theorem sound_token {c : Char} {tail : List Char} {v : Value}
    (hall : ∀ d ∈ c :: tail, Text.isDelimiter d = false) (hstring : c ≠ '"') (hquote : c ≠ '\'')
    (h : tokenValue c tail = .ok v) : v.Sound p size := by
  rcases tokenValue_cases h with ⟨name, rfl⟩ | ⟨x, rfl⟩
  · exact rule.token hall hstring hquote h
  · exact rule.sound_ofNumber x

theorem sound_supply {v : Value} (hv : v.Sound p 0) (after : Cursor) {pending : List Pending}
    (h : ∀ entry ∈ pending, entry.Sound p) : (supply v after pending).Sound p := by
  induction pending generalizing v with
  | nil =>
    rintro w ⟨⟩
    exact hv
  | cons entry pending ih =>
    have hpending : ∀ entry ∈ pending, entry.Sound p := fun e he => h e (by simp [he])
    cases entry with
    | quote => exact ih (rule.sound_quotation hv) hpending
    | list start items =>
      have hitems : ∀ w ∈ items, w.Sound p 0 := h (.list start items) (by simp)
      intro e he
      rcases List.mem_cons.mp he with rfl | he
      · intro w hw
        rcases List.mem_cons.mp hw with rfl | hw
        · exact hv
        · exact hitems w hw
      · exact hpending e he

theorem Takes.sound {pending : List Pending} {offset : Nat} {text : List Char} {s : Step}
    (h : Takes pending offset text s) (hpending : ∀ entry ∈ pending, entry.Sound p) :
    s.Sound p := by
  cases h with
  | opens rest =>
    intro e he
    rcases List.mem_cons.mp he with rfl | he
    · intro v hv
      cases hv
    · exact hpending e he
  | quotes rest =>
    intro e he
    rcases List.mem_cons.mp he with rfl | he
    · exact trivial
    · exact hpending e he
  | @closes rest start items outer heq =>
    subst heq
    have hitems : ∀ v ∈ items, v.Sound p 0 := hpending (.list start items) (by simp)
    have hlist : (Value.ofList items.reverse .nil).Sound p 0 :=
      Value.sound_ofList (fun v hv => hitems v (by simpa using hv)) rule.nil
    exact sound_supply rule hlist _ fun e he => hpending e (by simp [he])
  | @string text rest htext =>
    have hstring : (Value.string (String.ofList text)).Sound p 0 := rule.string htext
    exact sound_supply rule hstring _ hpending
  | @token c tail rest hall hstring hquote =>
    cases hvalue : tokenValue c tail with
    | ok v => exact sound_supply rule (sound_token rule hall hstring hquote hvalue) _ hpending
    | error fault =>
      rintro v ⟨⟩
  | ended | closesNone | unterminated => rintro v ⟨⟩

theorem sound_readFrom {pending : List Pending} (hpending : ∀ entry ∈ pending, entry.Sound p)
    {cursor after : Cursor} {v : Value} (h : readFrom pending cursor = ⟨.ok v, after⟩) :
    v.Sound p 0 := by
  fun_induction readFrom pending cursor with
  | case1 pending cursor reading hstep =>
    have hsound := (takes_step pending cursor).sound rule hpending
    rw [hstep, h] at hsound
    exact hsound v rfl
  | case2 pending cursor pending' cursor' hstep ih =>
    have hsound := (takes_step pending cursor).sound rule hpending
    rw [hstep] at hsound
    exact ih hsound h

end Reader

theorem Script.sound_values (rule : Value.AtomRule p) {text : List Char} {expr : Value}
    (h : expr ∈ (Script.ofText text).values) : expr.Sound p size := by
  have hitems : ∀ cursor, ∀ item ∈ (Script.readFrom cursor).items, item.value.Sound p 0 := by
    intro cursor
    fun_induction Script.readFrom cursor with
    | case1 => simp
    | case2 cursor start hend v after hread script ih =>
      intro item hitem
      rcases List.mem_cons.mp hitem with rfl | hitem
      · exact Reader.sound_readFrom rule (by simp) hread
      · exact ih item hitem
    | case3 => simp
  obtain ⟨item, hitem, rfl⟩ := List.mem_map.mp h
  exact (hitems _ item hitem).mono (Nat.zero_le _)

namespace Session

/-- What a session does may fail by nesting too deep or by a numeral that denotes nothing, but
not by a name that is no symbol. -/
abbrev SafeIn {α : Type} (p : Value → Prop) (size : Nat) (q : Nat → α → Prop)
    (m : SessionM α) : Prop :=
  Safe Session.store p (fun failure => ∀ name, failure ≠ .unbindable name) size q m

abbrev SoundValues (p : Value → Prop) (size : Nat) (values : List Value) : Prop :=
  ∀ v ∈ values, v.Sound p size

theorem safe_report (entry : LogEntry) : SafeIn p size (fun _ _ => True) (report entry) :=
  fun _ hstore _ =>
  { sound := hstore
    size_le := Nat.le_refl _
    result := fun _ => trivial
    failure := by
      rintro failure ⟨⟩ }

variable (rule : Value.AtomRule p)
include rule

theorem safe_evaluateGlobal {expr : Value} (hexpr : expr.Sound p size) (hsize : 0 < size) :
    SafeIn p size (Value.Sound p) (evaluateGlobal expr) := by
  intro session hstore hle
  have hrun := safeEvaluator_evaluate rule session.limit hexpr hsize session.store hstore hle
  exact ⟨hrun.sound, hrun.size_le, hrun.result,
    fun hfailure name => by simp [hrun.failure hfailure]⟩

theorem safe_evaluateReporting {expr : Value} (hexpr : expr.Sound p size) (hsize : 0 < size) :
    SafeIn p size (Value.Sound p) (evaluateReporting expr) := by
  refine .bind (safe_report _) fun _ n hn _ => ?_
  refine .bind (safe_evaluateGlobal rule (hexpr.mono hn) (Nat.lt_of_lt_of_le hsize hn))
    fun value m hm hvalue => ?_
  refine .ite (.bind (safe_report _) fun _ k hk _ => .pure fun l hl => ?_) (.pure fun k hk => ?_)
  · exact hvalue.mono (Nat.le_trans hk hl)
  · exact hvalue.mono hk

theorem safe_evaluateAll {exprs : List Value} (hexprs : SoundValues p size exprs)
    (hsize : 0 < size) : SafeIn p size (SoundValues p) (evaluateAll exprs) := by
  induction exprs generalizing size with
  | nil => exact .pure fun n hn v hv => by cases hv
  | cons expr rest ih =>
    refine .bind (safe_evaluateReporting rule (hexprs expr (by simp)) hsize)
      fun value n hn hvalue => ?_
    have hrest : SoundValues p n rest := fun v hv => (hexprs v (by simp [hv])).mono hn
    refine .bind (ih hrest (Nat.lt_of_lt_of_le hsize hn)) fun values m hm hvalues => ?_
    refine .pure fun k hk v hv => ?_
    rcases List.mem_cons.mp hv with rfl | hv
    · exact hvalue.mono (Nat.le_trans hm hk)
    · exact (hvalues v hv).mono hk

theorem safe_finish (fault : Option ReadFault) : SafeIn p size (SoundValues p) (finish fault) := by
  rcases fault with _ | ⟨sentinel, position⟩ | fault
  · exact .pure fun n hn v hv => by cases hv
  · refine .bind (safe_report _) fun _ n hn _ => .pure fun m hm v hv => ?_
    rw [List.mem_singleton.mp hv]
    exact rule.sound_sentinel sentinel
  · exact .throw (by simp)

theorem safe_run (text : List Char) (hsize : 0 < size) :
    SafeIn p size (SoundValues p) (Session.run text) := by
  have hexprs : SoundValues p size (Script.ofText text).values :=
    fun expr hexpr => Script.sound_values rule hexpr
  refine .bind (safe_evaluateAll rule hexprs hsize) fun values n hn hvalues => ?_
  refine .bind (safe_finish rule _) fun last m hm hlast => .pure fun k hk v hv => ?_
  rcases List.mem_append.mp hv with hv | hv
  · exact (hvalues v hv).mono (Nat.le_trans hm hk)
  · exact (hlast v hv).mono hk

theorem safe_eval (text : List Char) (hsize : 0 < size) :
    SafeIn p size (Value.Sound p) (Session.eval text) := by
  refine .bind (safe_run rule _ hsize) fun values n hn hvalues => .pure fun m hm => ?_
  cases hlast : values.getLast? with
  | none => exact rule.nil
  | some v => exact (hvalues v (List.mem_of_getLast? hlast)).mono hm

omit rule in
theorem keeps_pending {session : Session} (hstore : session.store.Sound p)
    (lines : List (List Char)) :
    Keeps Session.store p (fun failure => ∀ name, failure ≠ .unbindable name) (SoundValues p)
      session (.ok [], { session with pending := lines }) where
  sound := hstore
  size_le := Nat.le_refl _
  result := by
    rintro values ⟨⟩ v hv
    cases hv
  failure := by rintro failure ⟨⟩

theorem safe_run_pending (text : List Char) {session : Session} (hstore : session.store.Sound p)
    (hsize : 0 < session.store.frames.size) (lines : List (List Char)) :
    Keeps Session.store p (fun failure => ∀ name, failure ≠ .unbindable name) (SoundValues p)
      session ((Session.run text).run { session with pending := lines }) := by
  have hrun := safe_run rule text hsize { session with pending := lines } hstore (Nat.le_refl _)
  exact ⟨hrun.sound, hrun.size_le, hrun.result, hrun.failure⟩

theorem safe_feed (line : List Char) (hsize : 0 < size) :
    SafeIn p size (SoundValues p) (feed line) := by
  intro session hstore hle
  rw [run_feed]
  split
  · exact keeps_pending hstore []
  split
  · exact keeps_pending hstore _
  · exact safe_run_pending rule _ hstore (Nat.lt_of_lt_of_le hsize hle) []

theorem safe_flush (hsize : 0 < size) : SafeIn p size (SoundValues p) flush := by
  intro session hstore hle
  rw [run_flush]
  split
  · exact keeps_pending hstore session.pending
  · exact safe_run_pending rule _ hstore (Nat.lt_of_lt_of_le hsize hle) []

theorem safe_perform (request : Request) (hsize : 0 < size) :
    SafeIn p size (SoundValues p) request.perform := by
  cases request with
  | run text => exact safe_run rule text hsize
  | eval text =>
    refine .bind (safe_eval rule text hsize) fun v n hn hv => .pure fun m hm w hw => ?_
    rw [List.mem_singleton.mp hw]
    exact hv.mono hm
  | feed line => exact safe_feed rule line hsize
  | flush => exact safe_flush rule hsize

theorem sound_after {session : Session} (hstore : session.store.Sound p)
    (hsize : 0 < session.store.frames.size) (requests : List Request) :
    (session.after requests).store.Sound p ∧ 0 < (session.after requests).store.frames.size := by
  induction requests generalizing session with
  | nil => exact ⟨hstore, hsize⟩
  | cons request requests ih =>
    have hkeeps := safe_perform rule request hsize session hstore (Nat.le_refl _)
    exact ih hkeeps.sound (Nat.lt_of_lt_of_le hsize hkeeps.size_le)

theorem sound_start_after (limit : Nat) (requests : List Request) :
    ((start limit).after requests).store.Sound p ∧
      0 < ((start limit).after requests).store.frames.size := by
  have hsize : 0 < (start limit).store.frames.size := Nat.one_pos
  exact sound_after rule .withGlobal hsize requests

theorem keeps_perform (limit : Nat) (requests : List Request) (request : Request) :
    Keeps Session.store p (fun failure => ∀ name, failure ≠ .unbindable name) (SoundValues p)
      ((start limit).after requests) (request.perform.run ((start limit).after requests)) := by
  obtain ⟨hstore, hsize⟩ := sound_start_after rule limit requests
  exact safe_perform rule request hsize _ hstore (Nat.le_refl _)

end Session

end Lisplet
