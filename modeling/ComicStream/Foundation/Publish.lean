import ComicStream.Foundation.Inodes
import ComicStream.Foundation.Machine

/-!
# Publishing files by renaming

Any number of calls publish files. A call whose target is there has nothing to do.
Otherwise it prepares the content, takes a number from a counter for the name of a
temporary file, and creates, writes, syncs and renames that file; when one of these
fails it removes the file again. Every step can fail. All calls can be killed
between two steps, and the counter then starts again, while the files stay.

A call uses its temporary file through a handle, so that another call that opens
the same name would empty it. As long as the counter does not give one number
twice, no two calls have one name, and the targets hold whole contents only.
-/

namespace ComicStream.Publish

open Inodes

/-- The names of targets and of temporary files, and what is to be published for an input. Numbers
below the period make different names. -/
structure Protocol (Name Dest Input Item : Type*) where
  final : Dest → Name
  temp : Dest → ℕ → Name
  prepare : Dest → Input → Option (List Item)
  period : ℕ
  temp_ne_final : ∀ dest number other, temp dest number ≠ final other
  number_eq : ∀ {first second number other}, number < period → other < period →
    temp first number = temp second other → number = other

/-- What a call does next, with the name of its temporary file once it has one, or how it ended. -/
inductive Stage (Name Item : Type*) where
  | check
  | prepare
  | create (temp : Name) (content : List Item)
  | write (temp : Name) (handle offset : ℕ) (rest : List Item)
  | sync (temp : Name)
  | rename (temp : Name)
  | remove (temp : Name)
  | present
  | published
  | failed (temp : Option Name)
  | killed
  deriving DecidableEq

structure Call (Name Dest Input Item : Type*) where
  dest : Dest
  input : Input
  stage : Stage Name Item
  deriving DecidableEq

/-- The files, the calls in the order of their start, and the numbers taken since the last
restart. -/
structure System (Name Dest Input Item : Type*) where
  files : Files Name Item
  calls : List (Call Name Dest Input Item)
  count : ℕ

/-- How the next step of a call goes. A write can also get through a part only. -/
inductive Move where
  | succeed
  | write (size : ℕ)
  | fail
  deriving DecidableEq

inductive Action (Dest Input : Type*) where
  | start (dest : Dest) (input : Input)
  | advance (index : ℕ) (move : Move)
  | restart
  deriving DecidableEq

variable {Name Dest Input Item : Type*}

/-- The temporary file of a call under way. -/
def Stage.temp : Stage Name Item → Option Name
  | .create temp _ | .write temp _ _ _ | .sync temp | .rename temp | .remove temp =>
    some temp
  | _ => none

/-- Nothing more happens to a call that has returned. -/
def Stage.kill : Stage Name Item → Stage Name Item
  | .present => .present
  | .published => .published
  | .failed temp => .failed temp
  | _ => .killed

@[simp]
theorem Stage.temp_kill (stage : Stage Name Item) : stage.kill.temp = none := by
  cases stage <;> rfl

section Steps

variable [DecidableEq Name] [Inhabited Item] (protocol : Protocol Name Dest Input Item)

/-- The next step succeeds. -/
def Call.succeed (files : Files Name Item) (count : ℕ) (call : Call Name Dest Input Item) :
    Files Name Item × ℕ × Stage Name Item :=
  match call.stage with
  | .check =>
    (files, count, if (files.read (protocol.final call.dest)).isSome then .present else .prepare)
  | .prepare =>
    match protocol.prepare call.dest call.input with
    | none => (files, count, .failed none)
    | some content => (files, count + 1, .create (protocol.temp call.dest count) content)
  | .create temp content =>
    ((files.create temp).1, count, .write temp (files.create temp).2 0 content)
  | .write temp handle offset rest => (files.write handle offset rest, count, .sync temp)
  | .sync temp => (files, count, .rename temp)
  | .rename temp =>
    match files.rename temp (protocol.final call.dest) with
    | some next => (next, count, .published)
    | none => (files, count, .remove temp)
  | .remove temp => ((files.remove temp).getD files, count, .failed (some temp))
  | stage => (files, count, stage)

/-- The next step fails. A target that cannot be looked for is not there. -/
def Stage.fail : Stage Name Item → Stage Name Item
  | .check => .prepare
  | .prepare => .failed none
  | .create temp _ | .write temp _ _ _ | .sync temp | .rename temp => .remove temp
  | .remove temp => .failed (some temp)
  | stage => stage

def Call.advance (files : Files Name Item) (count : ℕ) (call : Call Name Dest Input Item) :
    Move → Files Name Item × ℕ × Stage Name Item
  | .succeed => call.succeed protocol files count
  | .write size =>
    match call.stage with
    | .write temp handle offset rest =>
      (files.write handle offset (rest.take size), count,
        .write temp handle (offset + (rest.take size).length) (rest.drop size))
    | stage => (files, count, stage)
  | .fail => (files, count, call.stage.fail)

def System.step (system : System Name Dest Input Item) :
    Action Dest Input → System Name Dest Input Item
  | .start dest input => { system with calls := system.calls ++ [⟨dest, input, .check⟩] }
  | .advance index move =>
    match system.calls[index]? with
    | none => system
    | some call =>
      let (files, count, stage) := call.advance protocol system.files system.count move
      { files, count, calls := system.calls.set index { call with stage } }
  | .restart =>
    { system with
      calls := system.calls.map fun call ↦ { call with stage := call.stage.kill }, count := 0 }

end Steps

/-- No files and no calls. -/
def System.empty : System Name Dest Input Item where
  files := .empty
  calls := []
  count := 0

section Calls

variable {protocol : Protocol Name Dest Input Item} {files next : Files Name Item} {count : ℕ}
  {call : Call Name Dest Input Item} {move : Move}

/-- What a call under way relies on: its file holds what it has written, and in the end the whole
content. -/
def Call.Holds (protocol : Protocol Name Dest Input Item) (files : Files Name Item)
    (call : Call Name Dest Input Item) : Prop :=
  match call.stage with
  | .create _ content => protocol.prepare call.dest call.input = some content
  | .write temp handle offset rest =>
    files.file temp = some handle ∧ (files.content handle).length = offset ∧
      protocol.prepare call.dest call.input = some (files.content handle ++ rest)
  | .sync temp | .rename temp =>
    ∃ content, protocol.prepare call.dest call.input = some content ∧
      files.read temp = some content
  | _ => True

/-- The steps of other calls do not disturb it, as long as they do not touch its file. -/
theorem Call.Holds.of_untouched (h : call.Holds protocol files)
    (huntouched : ∀ name ∈ call.stage.temp, files.Untouched next name) :
    call.Holds protocol next := by
  obtain ⟨dest, input, stage⟩ := call
  cases stage with
  | write temp handle offset rest =>
    obtain ⟨hfile, hlength, hprepare⟩ := h
    have htemp := huntouched temp rfl
    have hcontent := htemp.content_eq hfile
    refine ⟨htemp.1.trans hfile, ?_, ?_⟩
    · rw [hcontent]
      exact hlength
    · rw [hcontent]
      exact hprepare
  | sync temp =>
    obtain ⟨content, hprepare, hread⟩ := h
    exact ⟨content, hprepare, (huntouched temp rfl).2.trans hread⟩
  | rename temp =>
    obtain ⟨content, hprepare, hread⟩ := h
    exact ⟨content, hprepare, (huntouched temp rfl).2.trans hread⟩
  | _ => exact h

variable [DecidableEq Name] [Inhabited Item]

theorem Call.holds_succeed (h : call.Holds protocol files) :
    ({ call with stage := (call.succeed protocol files count).2.2 } : Call ..).Holds protocol
      (call.succeed protocol files count).1 := by
  obtain ⟨dest, input, stage⟩ := call
  cases stage with
  | check =>
    dsimp only [succeed]
    split <;> trivial
  | prepare =>
    dsimp only [succeed]
    split
    · trivial
    · next content hprepare => exact hprepare
  | create temp content =>
    obtain ⟨hfile, hcontent⟩ := files.create_self temp
    refine ⟨hfile, ?_, ?_⟩
    · dsimp only [succeed]
      rw [hcontent, List.length_nil]
    · dsimp only [succeed]
      rw [hcontent]
      exact h
  | write temp handle offset rest =>
    obtain ⟨hfile, rfl, hprepare⟩ := h
    refine ⟨_, hprepare, ?_⟩
    dsimp only [succeed]
    have hread : (files.write handle (files.content handle).length rest).read temp = some _ :=
      Files.read_of_file hfile
    rw [hread, Files.content_write, splice_length]
  | sync temp => exact h
  | rename temp =>
    dsimp only [succeed]
    split <;> trivial
  | _ => trivial

/-- Each step leaves the call what it relies on. -/
theorem Call.holds_advance (h : call.Holds protocol files) (move : Move) :
    ({ call with stage := (call.advance protocol files count move).2.2 } : Call ..).Holds protocol
      (call.advance protocol files count move).1 := by
  cases move with
  | succeed => exact holds_succeed h
  | write size =>
    obtain ⟨dest, input, stage⟩ := call
    cases stage with
    | write temp handle offset rest =>
      obtain ⟨hfile, rfl, hprepare⟩ := h
      refine ⟨hfile, ?_, ?_⟩
      · dsimp only [advance]
        rw [Files.content_write, splice_length, List.length_append]
      · dsimp only [advance]
        rw [Files.content_write, splice_length, List.append_assoc, List.take_append_drop]
        exact hprepare
    | _ => exact h
  | fail =>
    obtain ⟨dest, input, stage⟩ := call
    cases stage <;> trivial

/-- A step touches no name but that of its temporary file, and its target when it publishes. -/
theorem Call.advance_untouched (h : call.Holds protocol files) {name : Name}
    (htemp : name ∉ call.stage.temp)
    (hfinal : call.stage ≠ .published →
      (call.advance protocol files count move).2.2 = .published →
        name ≠ protocol.final call.dest) :
    files.Untouched (call.advance protocol files count move).1 name := by
  obtain ⟨dest, input, stage⟩ := call
  have hne {temp : Name} (hstage : stage.temp = some temp) : name ≠ temp := fun heq ↦
    htemp (heq ▸ hstage)
  cases move with
  | fail => exact .refl ..
  | write size =>
    cases stage with
    | write temp handle offset rest => exact Files.write_untouched h.1 (hne rfl) ..
    | _ => exact .refl ..
  | succeed =>
    dsimp only [advance] at hfinal ⊢
    cases stage with
    | create temp content => exact files.create_untouched (hne rfl)
    | write temp handle offset rest => exact Files.write_untouched h.1 (hne rfl) ..
    | prepare =>
      dsimp only [succeed]
      split <;> exact .refl ..
    | rename temp =>
      dsimp only [succeed] at hfinal ⊢
      split
      · next next hrename =>
        rw [hrename] at hfinal
        exact Files.rename_untouched hrename (hne rfl) (hfinal (by simp) rfl)
      · exact .refl ..
    | remove temp =>
      dsimp only [succeed]
      cases hremove : files.remove temp with
      | none => exact .refl ..
      | some next => exact Files.remove_untouched hremove (hne rfl)
    | _ => exact .refl ..

/-- A call that publishes has put its whole content in place. -/
theorem Call.read_of_published (h : call.Holds protocol files) (hstage : call.stage ≠ .published)
    (hpublished : (call.advance protocol files count move).2.2 = .published) :
    ∃ content, protocol.prepare call.dest call.input = some content ∧
      (call.advance protocol files count move).1.read (protocol.final call.dest) =
        some content := by
  obtain ⟨dest, input, stage⟩ := call
  cases move with
  | fail => cases stage <;> simp [advance, Stage.fail] at hpublished hstage
  | write size => cases stage <;> simp [advance] at hpublished hstage
  | succeed =>
    dsimp only [advance] at hpublished ⊢
    cases stage with
    | rename temp =>
      obtain ⟨content, hprepare, hread⟩ := h
      refine ⟨content, hprepare, ?_⟩
      dsimp only [succeed] at hpublished ⊢
      split at hpublished
      · next next hrename =>
        dsimp only
        rw [Files.read_rename hrename, if_pos rfl, hread]
      · simp at hpublished
    | check =>
      dsimp only [succeed] at hpublished
      split at hpublished <;> simp at hpublished
    | prepare =>
      dsimp only [succeed] at hpublished
      split at hpublished <;> simp at hpublished
    | _ => simp [succeed] at hpublished hstage

theorem Call.temp_advance {name : Name}
    (hname : name ∈ (call.advance protocol files count move).2.2.temp) :
    name ∈ call.stage.temp ∨ name = protocol.temp call.dest count ∧
      (call.advance protocol files count move).2.1 = count + 1 := by
  obtain ⟨dest, input, stage⟩ := call
  cases move with
  | fail => cases stage <;> simp_all [advance, Stage.fail, Stage.temp]
  | write size => cases stage <;> simp_all [advance, Stage.temp]
  | succeed =>
    dsimp only [advance] at hname ⊢
    cases stage with
    | check =>
      dsimp only [succeed] at hname
      split at hname <;> simp [Stage.temp] at hname
    | prepare =>
      dsimp only [succeed] at hname ⊢
      split at hname
      · simp [Stage.temp] at hname
      · exact Or.inr ⟨(Option.mem_some_iff.mp hname).symm, rfl⟩
    | rename temp =>
      dsimp only [succeed] at hname
      split at hname
      · simp [Stage.temp] at hname
      · exact Or.inl hname
    | create temp content => exact Or.inl hname
    | write temp handle offset rest => exact Or.inl hname
    | sync temp => exact Or.inl hname
    | _ => simp [succeed, Stage.temp] at hname

theorem Call.le_advance : count ≤ (call.advance protocol files count move).2.1 := by
  obtain ⟨dest, input, stage⟩ := call
  cases move with
  | fail => exact le_rfl
  | write size => cases stage <;> exact le_rfl
  | succeed =>
    dsimp only [advance]
    cases stage with
    | prepare =>
      dsimp only [succeed]
      split
      · exact le_rfl
      · exact Nat.le_succ _
    | rename temp =>
      dsimp only [succeed]
      split <;> exact le_rfl
    | _ => exact le_rfl

/-- A call that fails leaves no temporary file, unless it cannot remove it. -/
theorem Call.read_of_failed {temp : Option Name} (hstage : call.stage ≠ .failed temp)
    (hfailed : (call.advance protocol files count move).2.2 = .failed temp) (hmove : move ≠ .fail) :
    ∀ name ∈ temp, (call.advance protocol files count move).1.read name = none := by
  obtain ⟨dest, input, stage⟩ := call
  intro name hname
  rw [Option.mem_def.mp hname] at hstage hfailed
  cases move with
  | fail => exact absurd rfl hmove
  | write size => cases stage <;> simp_all [advance]
  | succeed =>
    dsimp only [advance] at hfailed ⊢
    cases stage with
    | remove temp =>
      dsimp only [succeed] at hfailed ⊢
      simp only [Stage.failed.injEq, Option.some.injEq] at hfailed
      rw [← hfailed]
      exact files.read_remove temp
    | check =>
      dsimp only [succeed] at hfailed
      split at hfailed <;> simp at hfailed
    | prepare =>
      dsimp only [succeed] at hfailed
      split at hfailed <;> simp at hfailed
    | rename temp =>
      dsimp only [succeed] at hfailed
      split at hfailed <;> simp at hfailed
    | _ => simp_all [succeed]

end Calls

/-! ## All calls -/

section Systems

variable {protocol : Protocol Name Dest Input Item} {system : System Name Dest Input Item}

/-- What holds between any two steps: targets have the content of a call for them, the names of
temporary files were made from numbers taken and no two calls have one, and every call has what it
relies on. -/
structure System.Sound (protocol : Protocol Name Dest Input Item)
    (system : System Name Dest Input Item) : Prop where
  whole : ∀ {dest : Dest} {content : List Item},
    system.files.read (protocol.final dest) = some content →
    ∃ call ∈ system.calls, protocol.final call.dest = protocol.final dest ∧
      protocol.prepare call.dest call.input = some content
  numbered : ∀ {index : ℕ} {call : Call Name Dest Input Item}, system.calls[index]? = some call →
    ∀ name ∈ call.stage.temp, ∃ number < system.count, name = protocol.temp call.dest number
  distinct : ∀ {index other : ℕ} {first second : Call Name Dest Input Item},
    system.calls[index]? = some first → system.calls[other]? = some second → other ≠ index →
      ∀ name ∈ first.stage.temp, name ∉ second.stage.temp
  holds : ∀ {index : ℕ} {call : Call Name Dest Input Item}, system.calls[index]? = some call →
    call.Holds protocol system.files

theorem System.sound_empty (protocol : Protocol Name Dest Input Item) :
    System.empty.Sound protocol where
  whole h := by simp [empty] at h
  numbered h := by simp [empty] at h
  distinct h := by simp [empty] at h
  holds h := by simp [empty] at h

theorem exists_mem_set {calls : List (Call Name Dest Input Item)} {index : ℕ}
    {call other : Call Name Dest Input Item} (hcall : calls[index]? = some call)
    (hother : other ∈ calls) (stage : Stage Name Item) :
    ∃ found ∈ calls.set index { call with stage }, found.dest = other.dest ∧
      found.input = other.input := by
  obtain ⟨place, hplace⟩ := List.mem_iff_getElem?.mp hother
  by_cases heq : place = index
  · rw [heq, hcall, Option.some.injEq] at hplace
    obtain ⟨hlt, -⟩ := List.getElem?_eq_some_iff.mp hcall
    exact ⟨_, List.mem_set hlt _, by rw [hplace], by rw [hplace]⟩
  · rw [← List.getElem?_set_ne (Ne.symm heq)] at hplace
    exact ⟨other, List.mem_of_getElem? hplace, rfl, rfl⟩

variable [DecidableEq Name] [Inhabited Item]

/-- A step adds to the numbers taken at most as many as there are names for. -/
def System.InPeriod (protocol : Protocol Name Dest Input Item)
    (system : System Name Dest Input Item) (action : Action Dest Input) : Prop :=
  (system.step protocol action).count ≤ protocol.period

instance (action : Action Dest Input) : Decidable (system.InPeriod protocol action) :=
  inferInstanceAs (Decidable (_ ≤ _))

theorem getElem?_set_cases {Item : Type*} {items : List Item} {index other : ℕ} {new item : Item}
    (h : (items.set index new)[other]? = some item) :
    other = index ∧ item = new ∨ other ≠ index ∧ items[other]? = some item := by
  rw [List.getElem?_set] at h
  split at h
  · next heq =>
    split at h
    · exact Or.inl ⟨heq.symm, (Option.some.inj h).symm⟩
    · simp at h
  · next hne => exact Or.inr ⟨Ne.symm hne, h⟩

section Advance

variable {index : ℕ} {call : Call Name Dest Input Item} {move : Move}

/-- No call touches the temporary file of another call under way. -/
theorem System.Sound.untouched (h : system.Sound protocol)
    (hcall : system.calls[index]? = some call) (move : Move) {other : ℕ}
    {second : Call Name Dest Input Item} (hsecond : system.calls[other]? = some second)
    (hother : other ≠ index) : ∀ name ∈ second.stage.temp,
      system.files.Untouched (call.advance protocol system.files system.count move).1 name := by
  intro name hname
  apply Call.advance_untouched (h.holds hcall)
  · exact h.distinct hsecond hcall hother.symm name hname
  · intro _ _
    obtain ⟨number, -, rfl⟩ := h.numbered hsecond name hname
    exact protocol.temp_ne_final _ _ _

/-- A target changes only when a call for it publishes, and then holds the content of this call. -/
theorem System.Sound.read_final (h : system.Sound protocol)
    (hcall : system.calls[index]? = some call) (move : Move) (dest : Dest) :
    system.files.Untouched (call.advance protocol system.files system.count move).1
      (protocol.final dest) ∨
    (call.advance protocol system.files system.count move).2.2 = .published ∧
      protocol.final call.dest = protocol.final dest ∧
      ∃ content, protocol.prepare call.dest call.input = some content ∧
        (call.advance protocol system.files system.count move).1.read (protocol.final dest) =
          some content := by
  by_cases hpublishes : call.stage ≠ .published ∧
      (call.advance protocol system.files system.count move).2.2 = .published ∧
      protocol.final dest = protocol.final call.dest
  · obtain ⟨hstage, hpublished, hfinal⟩ := hpublishes
    refine Or.inr ⟨hpublished, hfinal.symm, ?_⟩
    rw [hfinal]
    exact Call.read_of_published (h.holds hcall) hstage hpublished
  · refine Or.inl (Call.advance_untouched (h.holds hcall) ?_ ?_)
    · intro hname
      obtain ⟨number, -, heq⟩ := h.numbered hcall _ hname
      exact protocol.temp_ne_final _ _ _ heq.symm
    · intro hstage hpublished hfinal
      exact hpublishes ⟨hstage, hpublished, hfinal⟩

theorem System.Sound.temp_notMem (h : system.Sound protocol)
    (hcall : system.calls[index]? = some call)
    (hperiod : (call.advance protocol system.files system.count move).2.1 ≤ protocol.period)
    {other : ℕ} {second : Call Name Dest Input Item}
    (hsecond : system.calls[other]? = some second) (hother : other ≠ index) :
    ∀ name ∈ (call.advance protocol system.files system.count move).2.2.temp,
      name ∉ second.stage.temp := by
  intro name hname hmem
  rcases Call.temp_advance hname with hold | ⟨hnew, hcount⟩
  · exact h.distinct hcall hsecond hother name hold hmem
  · obtain ⟨number, hnumber, heq⟩ := h.numbered hsecond name hmem
    have hlt : system.count < protocol.period := by omega
    have hsame : number = system.count := by
      apply protocol.number_eq (hnumber.trans hlt) hlt
      calc
        protocol.temp second.dest number = name := heq.symm
        _ = protocol.temp call.dest system.count := hnew
    omega

theorem System.Sound.advance (h : system.Sound protocol)
    (hcall : system.calls[index]? = some call)
    (hperiod : (call.advance protocol system.files system.count move).2.1 ≤ protocol.period) :
    System.Sound protocol
      { files := (call.advance protocol system.files system.count move).1
        calls := system.calls.set index
          { call with stage := (call.advance protocol system.files system.count move).2.2 }
        count := (call.advance protocol system.files system.count move).2.1 } where
  whole {dest content} hread := by
    have hsource : ∃ other ∈ system.calls, protocol.final other.dest = protocol.final dest ∧
        protocol.prepare other.dest other.input = some content := by
      rcases h.read_final hcall move dest with hsame | ⟨-, hfinal, whole, hprepare, hwhole⟩
      · exact h.whole (hsame.2.symm.trans hread)
      · have hcontent : whole = content := Option.some.inj (hwhole.symm.trans hread)
        exact ⟨call, List.mem_of_getElem? hcall, hfinal, hcontent ▸ hprepare⟩
    obtain ⟨other, hother, hfinal, hprepare⟩ := hsource
    obtain ⟨found, hfound, hdest, hinput⟩ := exists_mem_set hcall hother _
    exact ⟨found, hfound, by rw [hdest, hfinal], by rw [hdest, hinput, hprepare]⟩
  numbered {other second} hsecond name hname := by
    have hle : system.count ≤ (call.advance protocol system.files system.count move).2.1 :=
      Call.le_advance
    rcases getElem?_set_cases hsecond with ⟨-, rfl⟩ | ⟨-, hold⟩
    · rcases Call.temp_advance hname with hname | ⟨hnew, hcount⟩
      · obtain ⟨number, hlt, heq⟩ := h.numbered hcall name hname
        exact ⟨number, by dsimp only; omega, heq⟩
      · exact ⟨system.count, by dsimp only; omega, hnew⟩
    · obtain ⟨number, hlt, heq⟩ := h.numbered hold name hname
      exact ⟨number, by dsimp only; omega, heq⟩
  distinct hfirst hsecond hne name hname hmem := by
    rcases getElem?_set_cases hfirst with ⟨heq, rfl⟩ | ⟨hfirstNe, hfirstOld⟩
    · rcases getElem?_set_cases hsecond with ⟨heq', -⟩ | ⟨hsecondNe, hsecondOld⟩
      · exact hne (heq'.trans heq.symm)
      · exact h.temp_notMem hcall hperiod hsecondOld hsecondNe name hname hmem
    · rcases getElem?_set_cases hsecond with ⟨-, rfl⟩ | ⟨-, hsecondOld⟩
      · exact h.temp_notMem hcall hperiod hfirstOld hfirstNe name hmem hname
      · exact h.distinct hfirstOld hsecondOld hne name hname hmem
  holds {other second} hsecond := by
    rcases getElem?_set_cases hsecond with ⟨-, rfl⟩ | ⟨hne, hold⟩
    · exact Call.holds_advance (h.holds hcall) move
    · exact (h.holds hold).of_untouched (h.untouched hcall move hold hne)

end Advance

theorem System.Sound.step (h : system.Sound protocol) {action : Action Dest Input}
    (hperiod : system.InPeriod protocol action) : (system.step protocol action).Sound protocol := by
  cases action with
  | start dest input =>
    have hcases {index : ℕ} {call : Call Name Dest Input Item}
        (hcall : (system.calls ++ [⟨dest, input, .check⟩])[index]? = some call) :
        system.calls[index]? = some call ∨ call = ⟨dest, input, .check⟩ := by
      rw [List.getElem?_append] at hcall
      split at hcall
      · exact Or.inl hcall
      · exact Or.inr (List.mem_singleton.mp (List.mem_of_getElem? hcall))
    refine ⟨fun hread ↦ ?_, fun hcall ↦ ?_, fun hfirst hsecond hne ↦ ?_, fun hcall ↦ ?_⟩
    · obtain ⟨call, hcall, hwhole⟩ := h.whole hread
      exact ⟨call, List.mem_append_left _ hcall, hwhole⟩
    · rcases hcases hcall with hold | rfl
      · exact h.numbered hold
      · simp [Stage.temp]
    · rcases hcases hfirst with hfirst | rfl
      · rcases hcases hsecond with hsecond | rfl
        · exact h.distinct hfirst hsecond hne
        · simp [Stage.temp]
      · simp [Stage.temp]
    · rcases hcases hcall with hold | rfl
      · exact h.holds hold
      · trivial
  | advance index move =>
    unfold InPeriod at hperiod
    rw [System.step] at hperiod ⊢
    split at hperiod
    · exact h
    · next call hcall => exact h.advance hcall hperiod
  | restart =>
    have hcases {index : ℕ} {call : Call Name Dest Input Item}
        (hcall : (system.calls.map fun call ↦ { call with stage := call.stage.kill })[index]? =
          some call) : ∃ stage : Stage Name Item, call.stage = stage.kill := by
      rw [List.getElem?_map, Option.map_eq_some_iff] at hcall
      obtain ⟨old, -, rfl⟩ := hcall
      exact ⟨old.stage, rfl⟩
    refine ⟨fun hread ↦ ?_, fun hcall ↦ ?_, fun hfirst _ _ ↦ ?_, fun hcall ↦ ?_⟩
    · obtain ⟨call, hcall, hwhole⟩ := h.whole hread
      exact ⟨_, List.mem_map_of_mem hcall, hwhole⟩
    · obtain ⟨stage, hstage⟩ := hcases hcall
      simp [hstage]
    · obtain ⟨stage, hstage⟩ := hcases hfirst
      simp [hstage]
    · obtain ⟨stage, hstage⟩ := hcases hcall
      unfold Call.Holds
      rw [hstage]
      cases stage <;> trivial

theorem System.Sound.untouched_step (h : system.Sound protocol) (index : ℕ) (move : Move)
    {other : ℕ} {call : Call Name Dest Input Item} (hcall : system.calls[other]? = some call)
    (hother : other ≠ index) : ∀ name ∈ call.stage.temp,
      system.files.Untouched (system.step protocol (.advance index move)).files name := by
  intro name hname
  rw [System.step]
  split
  · exact .refl ..
  · next found hfound => exact h.untouched hfound move hcall hother name hname

/-- The step from this system to the next is the one in which the call returns an error. -/
def System.ReturnsError (system next : System Name Dest Input Item) (index : ℕ)
    (temp : Option Name) : Prop :=
  (∃ call ∈ next.calls[index]?, call.stage = .failed temp) ∧
    ∀ call ∈ system.calls[index]?, call.stage ≠ .failed temp

instance [DecidableEq Item] (system next : System Name Dest Input Item) (index : ℕ)
    (temp : Option Name) : Decidable (system.ReturnsError next index temp) :=
  inferInstanceAs (Decidable (_ ∧ _))

theorem System.read_of_returnsError {index : ℕ} {move : Move} {temp : Option Name}
    (h : system.ReturnsError (system.step protocol (.advance index move)) index temp)
    (hmove : move ≠ .fail) :
    ∀ name ∈ temp, (system.step protocol (.advance index move)).files.read name = none := by
  obtain ⟨⟨call, hcall, hfailed⟩, hnot⟩ := h
  rw [step, Option.mem_def] at hcall
  rw [step]
  split at hcall
  · exact absurd hfailed (hnot call hcall)
  · next found hfound =>
    obtain ⟨hlt, -⟩ := List.getElem?_eq_some_iff.mp hfound
    dsimp only at hcall ⊢
    rw [List.getElem?_set_self hlt, Option.some.injEq] at hcall
    rw [← hcall] at hfailed
    exact Call.read_of_failed (hnot found hfound) hfailed hmove

/-- **Soundness of publication**, in every run that takes no number twice between two restarts. -/
theorem System.sound_run {actions : List (Action Dest Input)}
    (h : Machine.Allowed (System.step protocol) (System.InPeriod protocol) .empty actions) :
    (Machine.run (System.step protocol) .empty actions).Sound protocol :=
  Machine.run_invariant_of_allowed (fun _ _ hsound hperiod ↦ hsound.step hperiod) h
    (System.sound_empty protocol)

theorem System.Sound.read_final_step (h : system.Sound protocol) (action : Action Dest Input)
    (dest : Dest) :
    system.files.Untouched (system.step protocol action).files (protocol.final dest) ∨
    ∃ index move call content, action = .advance index move ∧ system.calls[index]? = some call ∧
      (system.step protocol action).calls[index]? = some { call with stage := .published } ∧
      protocol.final call.dest = protocol.final dest ∧
      protocol.prepare call.dest call.input = some content ∧
      (system.step protocol action).files.read (protocol.final dest) = some content := by
  cases action with
  | start dest input => exact Or.inl (.refl ..)
  | restart => exact Or.inl (.refl ..)
  | advance index move =>
    rw [System.step]
    split
    · exact Or.inl (.refl ..)
    · next call hcall =>
      rcases h.read_final hcall move dest with hsame | ⟨hpublished, hfinal, content, hprepare, hread⟩
      · exact Or.inl hsame
      · obtain ⟨hlt, -⟩ := List.getElem?_eq_some_iff.mp hcall
        refine Or.inr ⟨index, move, call, content, rfl, hcall, ?_, hfinal, hprepare, hread⟩
        dsimp only
        rw [List.getElem?_set_self hlt, hpublished]

theorem System.step_concat (protocol : Protocol Name Dest Input Item) (files : Files Name Item)
    (calls : List (Call Name Dest Input Item)) (call : Call Name Dest Input Item) (count : ℕ)
    (move : Move) :
    System.step protocol ⟨files, calls ++ [call], count⟩ (.advance calls.length move) =
      ⟨(call.advance protocol files count move).1,
        calls ++ [{ call with stage := (call.advance protocol files count move).2.2 }],
        (call.advance protocol files count move).2.1⟩ := by
  rw [System.step, List.getElem?_concat_length]
  dsimp only
  rw [List.set_append_right _ _ le_rfl, Nat.sub_self, List.set_cons_zero]

theorem System.getElem?_step_of_published {index : ℕ} {call : Call Name Dest Input Item}
    (hcall : system.calls[index]? = some call) (hstage : call.stage = .published)
    (action : Action Dest Input) : (system.step protocol action).calls[index]? = some call := by
  obtain ⟨hlt, -⟩ := List.getElem?_eq_some_iff.mp hcall
  have hsame (stage : Stage Name Item) (h : stage = .published) :
      ({ call with stage } : Call ..) = call := by
    rw [h, ← hstage]
  cases action with
  | start dest input =>
    rw [System.step, List.getElem?_append_left hlt]
    exact hcall
  | restart =>
    rw [System.step, List.getElem?_map, hcall, Option.map_some, hsame _ (by rw [hstage]; rfl)]
  | advance other move =>
    rw [System.step]
    split
    · exact hcall
    · next found hfound =>
      dsimp only
      by_cases hother : other = index
      · rw [hother, hcall, Option.some.injEq] at hfound
        rw [← hfound, hother, List.getElem?_set_self hlt, hsame]
        cases move <;> simp [Call.advance, Call.succeed, hstage, Stage.fail]
      · rw [List.getElem?_set_ne hother, hcall]

theorem System.getElem?_run_of_published {index : ℕ} {call : Call Name Dest Input Item}
    (hcall : system.calls[index]? = some call) (hstage : call.stage = .published)
    (actions : List (Action Dest Input)) :
    (Machine.run (System.step protocol) system actions).calls[index]? = some call := by
  induction actions generalizing system with
  | nil => exact hcall
  | cons action rest ih => exact ih (getElem?_step_of_published hcall hstage action)

theorem System.start_mem {actions : List (Action Dest Input)} :
    ∀ call ∈ (Machine.run (System.step protocol) .empty actions).calls,
      Action.start call.dest call.input ∈ actions := by
  induction actions using List.reverseRecOn with
  | nil => simp [empty]
  | append_singleton actions action ih =>
    intro call hcall
    rw [Machine.run_snoc] at hcall
    apply List.mem_append.mpr
    cases action with
    | start dest input =>
      rcases List.mem_append.mp hcall with hold | hnew
      · exact Or.inl (ih call hold)
      · rw [List.mem_singleton.mp hnew]
        exact Or.inr (List.mem_singleton_self _)
    | restart =>
      obtain ⟨old, hold, rfl⟩ := List.mem_map.mp hcall
      exact Or.inl (ih old hold)
    | advance index move =>
      rw [System.step] at hcall
      split at hcall
      · exact Or.inl (ih call hcall)
      · next found hfound =>
        rcases List.mem_or_eq_of_mem_set hcall with hold | rfl
        · exact Or.inl (ih call hold)
        · exact Or.inl (ih found (List.mem_of_getElem? hfound))

theorem Call.file_advance {files : Files Name Item} {count : ℕ} {call : Call Name Dest Input Item}
    {move : Move} {name : Name}
    (h : ((call.advance protocol files count move).1.file name).isSome) :
    (files.file name).isSome ∨ name ∈ call.stage.temp ∨ name = protocol.final call.dest := by
  obtain ⟨dest, input, stage⟩ := call
  cases move with
  | fail => exact Or.inl h
  | write size => cases stage <;> exact Or.inl h
  | succeed =>
    dsimp only [advance] at h
    cases stage with
    | create temp content =>
      by_cases hname : name = temp
      · exact Or.inr (Or.inl (Option.mem_some_iff.mpr hname.symm))
      · dsimp only [succeed] at h
        rw [(files.create_untouched hname).1] at h
        exact Or.inl h
    | prepare =>
      dsimp only [succeed] at h
      split at h <;> exact Or.inl h
    | rename temp =>
      dsimp only [succeed] at h
      split at h
      · next next hrename =>
        rw [Files.file_rename hrename] at h
        split at h
        · next hname => exact Or.inr (Or.inr hname)
        · split at h
          · simp at h
          · exact Or.inl h
      · exact Or.inl h
    | remove temp =>
      dsimp only [succeed] at h
      cases hremove : files.remove temp with
      | none =>
        rw [hremove, Option.getD_none] at h
        exact Or.inl h
      | some next =>
        rw [hremove, Option.getD_some, Files.file_remove hremove, Function.update_apply] at h
        split at h
        · simp at h
        · exact Or.inl h
    | _ => exact Or.inl h

/-- Every name with a file is the target of a call, or was made for one. -/
structure System.Owned (protocol : Protocol Name Dest Input Item)
    (system : System Name Dest Input Item) : Prop where
  named : ∀ call ∈ system.calls, ∀ name ∈ call.stage.temp,
    ∃ number, name = protocol.temp call.dest number
  owned : ∀ name, (system.files.file name).isSome → ∃ call ∈ system.calls,
    name = protocol.final call.dest ∨ ∃ number, name = protocol.temp call.dest number

theorem System.Owned.step (h : system.Owned protocol) (action : Action Dest Input) :
    (system.step protocol action).Owned protocol := by
  cases action with
  | start dest input =>
    refine ⟨fun call hcall ↦ ?_, fun name hname ↦ ?_⟩
    · rcases List.mem_append.mp hcall with hold | hnew
      · exact h.named call hold
      · rw [List.mem_singleton.mp hnew]
        simp [Stage.temp]
    · obtain ⟨call, hcall, howner⟩ := h.owned name hname
      exact ⟨call, List.mem_append_left _ hcall, howner⟩
  | restart =>
    refine ⟨fun call hcall ↦ ?_, fun name hname ↦ ?_⟩
    · obtain ⟨old, -, rfl⟩ := List.mem_map.mp hcall
      simp
    · obtain ⟨call, hcall, howner⟩ := h.owned name hname
      exact ⟨_, List.mem_map_of_mem hcall, howner⟩
  | advance index move =>
    rw [System.step]
    split
    · exact h
    · next found hfound =>
      have hmem := List.mem_of_getElem? hfound
      refine ⟨fun call hcall name hname ↦ ?_, fun name hname ↦ ?_⟩
      · rcases List.mem_or_eq_of_mem_set hcall with hold | rfl
        · exact h.named call hold name hname
        · rcases Call.temp_advance hname with hold | ⟨hnew, -⟩
          · exact h.named found hmem name hold
          · exact ⟨system.count, hnew⟩
      · have howner : ∃ call ∈ system.calls,
            name = protocol.final call.dest ∨ ∃ number, name = protocol.temp call.dest number := by
          rcases Call.file_advance hname with hold | htemp | hfinal
          · exact h.owned name hold
          · exact ⟨found, hmem, Or.inr (h.named found hmem name htemp)⟩
          · exact ⟨found, hmem, Or.inl hfinal⟩
        obtain ⟨call, hcall, howner⟩ := howner
        obtain ⟨other, hother, hdest, -⟩ := exists_mem_set hfound hcall _
        exact ⟨other, hother, by rw [hdest]; exact howner⟩

/-- In every run, each file is the target of a call that was started, or was made for one. -/
theorem System.exists_start_of_file {actions : List (Action Dest Input)} {name : Name}
    (h : ((Machine.run (System.step protocol) .empty actions).files.file name).isSome) :
    ∃ dest input, Action.start dest input ∈ actions ∧
      (name = protocol.final dest ∨ ∃ number, name = protocol.temp dest number) := by
  have hempty : System.Owned protocol .empty := ⟨by simp [empty], by simp [empty, Files.empty]⟩
  have howned : (Machine.run (System.step protocol) .empty actions).Owned protocol :=
    @Machine.run_invariant _ _ (System.step protocol) (System.Owned protocol)
      (fun _ action hsystem ↦ hsystem.step action) _ actions hempty
  obtain ⟨call, hcall, howner⟩ := howned.owned name h
  exact ⟨call.dest, call.input, System.start_mem call hcall, howner⟩

end Systems

end ComicStream.Publish
