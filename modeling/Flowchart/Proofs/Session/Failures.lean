import Flowchart.Proofs.Workspace.InPlace
import Flowchart.Session.Basic

/-!
# Failures change nothing

An edit that is refused leaves the workspace as it was, and a command that fails leaves the
whole session as it was: the program, its name and the result of the last run. Both are said
of the commands as actions that assign to one session, step after step.
-/

namespace Flowchart

namespace InPlace

/-! ## Actions -/

abbrev Action := EStateM Session.Error Session

/-- Edits the workspace where it stands: the session keeps whatever the procedure leaves. -/
def change (e : Edit) : Action Unit := do
  match (procedure e).run (← get).workspace with
  | .ok () w => modify fun s => { s with workspace := w }
  | .error f w => do
    modify fun s => { s with workspace := w }
    throw (.edit f)

def load (files : Files) (path : String) : Action Unit := do
  let text ← ofExcept ((files.read path).mapError .file)
  let records ← ofExcept ((Document.decode text).mapError .document)
  -- The records go into a workspace of their own, which is dropped if one of them is refused.
  match (forM records add).run .empty with
  | .error f _ => throw (.edit f)
  | .ok () w => do
    modify fun s => { s with workspace := w }
    modify fun s => { s with name := Session.programName path }

def save (files : Files) (path : String) : Action Unit := do
  match files.write path (Document.encode (← get).name (← get).records) with
  | .complete => pure ()
  | .refused e | .broken e _ => throw (.file e)

def setField (id field text : String) : Action Unit := do
  match (← get).workspace.block? id with
  | none => throw (.usage (.unknownBlock id))
  | some r =>
    match r.data.set? field text with
    | none => throw (.usage (.unknownField field))
    | some data => change (.update id data)

def run : Action Unit := do
  match (← get).interpreter.execute (← get).records with
  | .finished r => modify fun s => { s with last := some r }
  | .crashed _ | .unfinished => pure ()

def vars : Action Unit := do
  match (← get).last with
  | some _ => pure ()
  | none => throw (.usage .nothingRun)

def action (files : Files) : Command → Action Unit
  | .load path => load files path
  | .save path => save files path
  | .edit e => change e
  | .set id field text => setField id field text
  | .run => run
  | .vars => vars
  | .help | .quit | .list | .tree | .check => pure ()

def line (files : Files) (text : String) : Action Unit :=
  match Session.command? text with
  | none => pure ()
  | some (.error e) => throw (.usage e)
  | some (.ok c) => action files c

/-! ## What actions leave behind -/

/-- The session after a command, unless it failed. -/
def successor (reply : Session.Reply) : Except Session.Error Session :=
  match reply.ending with
  | .failed e => .error e
  | _ => .ok reply.session

theorem successor_eq_error_iff {reply : Session.Reply} {e : Session.Error} :
    successor reply = .error e ↔ reply.ending = .failed e := by
  unfold successor
  split <;> simp_all

theorem successor_eq_ok_iff {reply : Session.Reply} {s : Session} :
    successor reply = .ok s ↔ (∀ e, reply.ending ≠ .failed e) ∧ s = reply.session := by
  unfold successor
  split <;> simp_all [eq_comm]

variable {files : Files} {s : Session}

theorem change_mirrors (e : Edit) : Mirrors s (change e) (successor (s.edit e)) := by
  unfold change Session.edit
  refine mirrors_get ?_
  rw [procedure_mirrors s.workspace e]
  cases s.workspace.apply e <;> rfl

/-- A program is built one record after the other. Nothing is said of what is left where that
fails: some of its records may have been added. -/
theorem forM_add (w : Workspace) (records : List Record) :
    (∀ w', records.foldlM Workspace.add w = .ok w' → (forM records add).run w = .ok () w') ∧
    ∀ f, records.foldlM Workspace.add w = .error f →
      ∃ w', (forM records add).run w = .error f w' := by
  induction records generalizing w with
  | nil =>
    refine ⟨fun w' h => ?_, fun f h => ?_⟩
    · cases h
      rfl
    · cases h
  | cons r rest ih =>
    rw [List.foldlM_cons, List.forM_cons, EStateM.run_bind, add_mirrors r]
    cases w.add r with
    | error f =>
      refine ⟨fun w' h => ?_, fun f' h => ?_⟩
      · cases h
      · cases h
        exact ⟨w, rfl⟩
    | ok w' => exact ih w'

theorem load_mirrors (path : String) : Mirrors s (load files path) (s.load files path) := by
  unfold load Session.load
  refine mirrors_ofExcept fun text => mirrors_ofExcept fun records => ?_
  obtain ⟨hok, herror⟩ := forM_add .empty records
  cases hbuilt : Workspace.ofRecords records with
  | ok w =>
    rw [hok w hbuilt]
    exact ((ends_modify _ _).bind (ends_modify _ _)).mirrors
  | error f =>
    obtain ⟨w, hw⟩ := herror f hbuilt
    rw [hw]
    rfl

theorem setField_mirrors (id field text : String) :
    Mirrors s (setField id field text) (successor (s.setField id field text)) := by
  unfold setField Session.setField
  refine mirrors_get ?_
  cases s.workspace.block? id with
  | none => rfl
  | some r =>
    dsimp only
    cases r.data.set? field text with
    | none => rfl
    | some data => exact change_mirrors (.update id data)

theorem action_mirrors (c : Command) :
    Mirrors s (action files c) (successor (s.perform files c)) := by
  cases c with
  | help | quit | list | tree | check => rfl
  | load path =>
    have hload : Mirrors s (load files path) (s.load files path) := load_mirrors path
    simp only [action, Session.perform]
    cases hs : s.load files path <;> rwa [hs] at hload
  | save path =>
    simp only [action, Session.perform, save, Session.save]
    refine mirrors_get (mirrors_get ?_)
    cases files.write path (Document.encode s.name s.records) <;> rfl
  | edit e => exact change_mirrors e
  | set id field text => exact setField_mirrors id field text
  | run =>
    simp only [action, Session.perform, run, Session.run]
    refine mirrors_get (mirrors_get ?_)
    cases s.interpreter.execute s.records <;> rfl
  | vars =>
    simp only [action, Session.perform, vars]
    refine mirrors_get ?_
    cases s.last <;> rfl

theorem line_mirrors (text : String) :
    Mirrors s (line files text) (successor (s.eval files text)) := by
  unfold line Session.eval
  cases Session.command? text with
  | none => rfl
  | some parsed =>
    cases parsed with
    | error e => rfl
    | ok c => exact action_mirrors c

end InPlace

/-! ## Replies to failures -/

theorem Workspace.edit_eq_refused_iff {w w' : Workspace} {e : Edit} {f : Failure} :
    w.edit e = (w', some f) ↔ w.apply e = .error f ∧ w' = w := by
  unfold Workspace.edit
  cases w.apply e <;> simp [eq_comm, and_comm]

theorem Workspace.edit_eq_done_iff {w w' : Workspace} {e : Edit} :
    w.edit e = (w', none) ↔ w.apply e = .ok w' := by
  unfold Workspace.edit
  cases w.apply e <;> simp

namespace Session

variable {files : Files} {s : Session} {error : Error}

/-- The replies to a command that failed: the error and nothing else, but where a file was opened,
what is left in it. -/
inductive Failing (files : Files) (s : Session) (error : Error) : Reply → Prop
  | refused : Failing files s error (s.fails error)
  | broken {e : FileError} {path kept : String} (he : error = .file e)
      (hwrite : files.write path (Document.encode s.name s.records) = .broken e kept) :
      Failing files s error { s.fails error with spoiled := some (path, kept) }

theorem edit_of_failed {e : Edit} (h : (s.edit e).ending = .failed error) :
    s.edit e = s.fails error := by
  unfold edit at h ⊢
  split at h
  · cases h
  · cases h
    rfl

theorem save_of_failed {path : String} (h : (s.save files path).ending = .failed error) :
    Failing files s error (s.save files path) := by
  simp only [save] at h ⊢
  cases hwrite : files.write path (Document.encode s.name s.records) with
  | complete =>
    rw [hwrite] at h
    cases h
  | refused e =>
    rw [hwrite] at h
    cases h
    exact .refused
  | broken e kept =>
    rw [hwrite] at h
    cases h
    exact .broken rfl hwrite

theorem setField_of_failed {id field text : String}
    (h : (s.setField id field text).ending = .failed error) :
    s.setField id field text = s.fails error := by
  unfold setField at h ⊢
  split at h
  · cases h
    rfl
  · split at h
    · cases h
      rfl
    · exact edit_of_failed h

theorem run_ending (s : Session) : s.run.ending ≠ .failed error := by
  unfold run
  split <;> simp

theorem perform_of_failed {c : Command} (h : (s.perform files c).ending = .failed error) :
    Failing files s error (s.perform files c) := by
  cases c with
  | help | quit | list | tree | check => cases h
  | load path =>
    simp only [perform] at h ⊢
    split at h
    · cases h
    · cases h
      exact .refused
  | save path => exact save_of_failed h
  | edit change =>
    rw [perform, edit_of_failed h]
    exact .refused
  | set id field text =>
    rw [perform, setField_of_failed h]
    exact .refused
  | run => exact absurd h s.run_ending
  | vars =>
    simp only [perform] at h ⊢
    split at h
    · cases h
    · cases h
      exact .refused

theorem eval_of_failed {line : String} (h : (s.eval files line).ending = .failed error) :
    Failing files s error (s.eval files line) := by
  unfold eval at h ⊢
  split at h
  · cases h
  · cases h
    exact .refused
  · exact perform_of_failed h

/-- Edits and command lines, carried out in place, end as they do when they give a new state;
where they fail, the state is the one before. A file is touched by a failure only if it broke off
the writing of the program to it. -/
theorem failures_change_nothing (w : Workspace) (e : Edit) (files : Files) (s : Session)
    (line : String) :
    (∀ f w', (InPlace.procedure e).run w = .error f w' ↔ w.edit e = (w, some f) ∧ w' = w) ∧
    (∀ w', (InPlace.procedure e).run w = .ok () w' ↔ w.edit e = (w', none)) ∧
    (∀ f, (w.edit e).2 = some f → (w.edit e).1 = w) ∧
    (∀ error s', (InPlace.line files line).run s = .error error s' ↔
      (s.eval files line).ending = .failed error ∧ s' = s) ∧
    (∀ s', (InPlace.line files line).run s = .ok () s' ↔
      (∀ error, (s.eval files line).ending ≠ .failed error) ∧ s' = (s.eval files line).session) ∧
    ∀ error, (s.eval files line).ending = .failed error →
      (s.eval files line).session = s ∧ (s.eval files line).output = "" ∧
      (s.eval files line).saved = none ∧
      ∀ path kept, (s.eval files line).spoiled = some (path, kept) → ∃ e, error = .file e ∧
        files.write path (Document.encode s.name s.records) = .broken e kept := by
  refine ⟨fun f w' => ?_, fun w' => ?_, fun f h => ?_, fun error s' => ?_, fun s' => ?_,
    fun error h => ?_⟩
  · rw [(InPlace.procedure_mirrors w e).eq_error_iff, Workspace.edit_eq_refused_iff]
    simp
  · rw [(InPlace.procedure_mirrors w e).eq_ok_iff, Workspace.edit_eq_done_iff]
  · exact (Workspace.edit_eq_refused_iff.mp (Prod.ext rfl h)).2
  · rw [(InPlace.line_mirrors line).eq_error_iff, InPlace.successor_eq_error_iff]
  · rw [(InPlace.line_mirrors line).eq_ok_iff, InPlace.successor_eq_ok_iff]
  · have hfailing := eval_of_failed h
    generalize s.eval files line = reply at hfailing
    cases hfailing with
    | refused => exact ⟨rfl, rfl, rfl, nofun⟩
    | broken he hwrite =>
      refine ⟨rfl, rfl, rfl, fun path kept hspoiled => ?_⟩
      cases hspoiled
      exact ⟨_, he, hwrite⟩

/-- A program of three blocks, of which the first leads to the second. -/
def opened : Session where
  interpreter := ⟨.standard, 100⟩
  workspace :=
    ⟨[{ id := "s", type := "start", next := "a" }, { id := "a", type := "output", previous := "s" },
      { id := "b", type := "output" }], ⟨[("s", 0), ("a", 1), ("b", 2)]⟩⟩
  name := "opened"

/-- Every file holds a program that gives one id to two blocks. -/
def doubled : Files where
  read _ := .ok "- instanceId: c\n  type: start\n- instanceId: c\n  type: output\n"
  write _ _ := .complete

/-- A link to a block that has one is refused, and so is a program whose second record repeats an
id. -/
theorem failures_change_nothing_opened :
    (InPlace.procedure (.connect "b" .next "a")).run opened.workspace =
      .error { cause := .edit .incomingTaken, node := "a" } opened.workspace ∧
    (InPlace.line doubled "load doubled.yaml").run opened =
      .error (.edit { cause := .edit (.duplicateId "c"), node := "c" }) opened ∧
    (opened.eval doubled "load doubled.yaml").session = opened := by
  obtain ⟨hedit, -, -, hline, -, hsame⟩ :=
    failures_change_nothing opened.workspace (.connect "b" .next "a") doubled opened
      "load doubled.yaml"
  have hload : (opened.eval doubled "load doubled.yaml").ending =
      .failed (.edit { cause := .edit (.duplicateId "c"), node := "c" }) := by decide +kernel
  exact ⟨(hedit _ _).mpr ⟨by decide +kernel, rfl⟩, (hline _ _).mpr ⟨hload, rfl⟩, (hsame _ hload).1⟩

end Session

end Flowchart
