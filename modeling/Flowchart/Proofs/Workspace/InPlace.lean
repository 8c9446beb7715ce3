import Flowchart.Workspace.Edit
import Mathlib.Tactic.SplitIfs

/-!
# Edits in place

The edits as procedures that assign to one workspace, step after step. A procedure that stops
keeps what it has assigned by then, so all checks have to come before the first assignment.
Each procedure does what the edit does.
-/

namespace Flowchart.InPlace

abbrev Procedure := EStateM Failure Workspace

/-! ## Steps -/

def refuseIf (c : Prop) [Decidable c] (error : Workspace.Error) (node : String)
    (source : String := "") :
    Procedure Unit :=
  if c then throw { cause := .edit error, node, source } else pure ()

def find (id : String) : Procedure Record := do
  ofExcept ((← get).find id)

/-- Assigns to the record of an id. -/
def assign (id : String) (change : Record → Record) : Procedure Unit :=
  modify fun w => w.modify id change

/-- Assigns to the record at a position, and to the position of its id. -/
def settle (id : String) (i : Nat) : Procedure Unit := do
  match (← get).records[i]? with
  | none => pure ()
  | some r =>
    modify fun w => { w with index := w.index.put r.id i }
    modify fun w => { w with records := w.records.modify i (Workspace.forget id) }

/-! ## Procedures -/

def add (r : Record) : Procedure Unit := do
  refuseIf (r.id = "") .idMissing ""
  refuseIf ((← get).index.contains r.id) (.duplicateId r.id) r.id
  refuseIf (r.isStart && (← get).records.any Record.isStart) .secondStart r.id
  modify fun w => { w with index := w.index.put r.id w.records.length }
  modify fun w => { w with records := w.records ++ [r] }

def remove (id : String) : Procedure Unit := do
  match (← get).index.get? id with
  | none => throw { cause := .edit (.noBlock id), node := id }
  | some i =>
    modify fun w => { w with records := w.records.eraseIdx i }
    modify fun w => { w with index := w.index.erase id }
    forM (List.range (← get).records.length) (settle id)

def update (id : String) (data : Data) : Procedure Unit := do
  let _ ← find id
  assign id fun r => { r with data }

def connect (source : String) (p : Port) (target : String) : Procedure Unit := do
  refuseIf (source = target) .selfConnection source
  let src ← find source
  let dest ← find target
  ofExcept (Workspace.checkPort src p)
  refuseIf (src.link p ≠ "") (.portTaken p) source
  refuseIf (dest.previous ≠ "" ∨ (← get).hasIncoming target) .incomingTaken target
  assign source (·.setLink p target)
  assign target fun r => { r with previous := source }

def disconnect (id : String) (p : Port) : Procedure Unit := do
  let r ← find id
  match p with
  | .top =>
    if r.previous = "" then pure ()
    else do
      forM Port.outgoing fun q =>
        assign r.previous fun x => if x.link q = id then x.setLink q "" else x
      assign id fun r => { r with previous := "" }
  | .next | .onTrue | .onFalse =>
    if r.link p = "" then pure ()
    else do
      assign (r.link p) fun t => if t.previous = id then { t with previous := "" } else t
      assign id (·.setLink p "")
  | .unlisted _ => throw { cause := .edit (.unknownPort p), node := id }

def connectInput (producer target : String) (s : Slot) : Procedure Unit := do
  refuseIf (producer = target) .selfBinding target
  let p ← find producer
  let t ← find target
  refuseIf (p.kind.isProducer = false) (.noValue p.type) target producer
  refuseIf (t.kind.accepts s = false) (.inputMissing t.type s) target producer
  assign target (·.setInput s producer)

def disconnectInput (id : String) (s : Slot) : Procedure Unit := do
  let _ ← find id
  assign id (·.setInput s "")

def procedure : Edit → Procedure Unit
  | .add r => add r
  | .remove id => remove id
  | .update id data => update id data
  | .connect source p target => connect source p target
  | .disconnect id p => disconnect id p
  | .connectInput producer target s => connectInput producer target s
  | .disconnectInput id s => disconnectInput id s

/-! ## Assignments -/

section Rules

variable {ε σ α : Type}

/-- The procedure comes to its end, and leaves `s'` behind. -/
def Ends (s : σ) (p : EStateM ε σ Unit) (s' : σ) : Prop := p.run s = .ok () s'

theorem Ends.bind {s s₁ s' : σ} {p k : EStateM ε σ Unit} (hp : Ends s p s₁) (hk : Ends s₁ k s') :
    Ends s (p >>= fun _ => k) s' := by
  unfold Ends at *
  rw [EStateM.run_bind, hp]
  exact hk

theorem ends_modify (s : σ) (f : σ → σ) : Ends s (modify f : EStateM ε σ Unit) (f s) := rfl

theorem ends_get {s s' : σ} {k : σ → EStateM ε σ Unit} (hk : Ends s (k s) s') :
    Ends s (get >>= k) s' := hk

theorem ends_forM {f : α → EStateM ε σ Unit} {next : σ → α → σ}
    (hf : ∀ s a, Ends s (f a) (next s a)) (s : σ) (l : List α) :
    Ends s (forM l f) (l.foldl next s) := by
  induction l generalizing s with
  | nil => rfl
  | cons a rest ih =>
    rw [List.forM_cons]
    exact (hf s a).bind (ih (next s a))

/-! ## Checks -/

/-- What is left of `s` by a computation of its successor: nothing has changed if it failed. -/
def outcome (s : σ) : Except ε σ → EStateM.Result ε σ Unit
  | .ok s' => .ok () s'
  | .error e => .error e s

/-- The procedure does to `s` what the computation makes of it. -/
def Mirrors (s : σ) (p : EStateM ε σ Unit) (x : Except ε σ) : Prop := p.run s = outcome s x

variable {s : σ}

theorem Ends.mirrors {p : EStateM ε σ Unit} {s' : σ} (h : Ends s p s') : Mirrors s p (.ok s') := h

theorem mirrors_get {k : σ → EStateM ε σ Unit} {x : Except ε σ} (hk : Mirrors s (k s) x) :
    Mirrors s (get >>= k) x := hk

theorem mirrors_ofExcept {y : Except ε α} {k : α → EStateM ε σ Unit} {k' : α → Except ε σ}
    (hk : ∀ a, Mirrors s (k a) (k' a)) : Mirrors s (ofExcept y >>= k) (y >>= k') := by
  cases y with
  | error e => rfl
  | ok a => exact hk a

theorem mirrors_unless {c : Prop} [Decidable c] {k : EStateM ε σ Unit} {s' : σ} (hk : Ends s k s') :
    Mirrors s (if c then pure () else k) (if c then pure s else pure s') := by
  split_ifs
  · rfl
  · exact hk.mirrors

theorem Mirrors.eq_error_iff {p : EStateM ε σ Unit} {x : Except ε σ} (h : Mirrors s p x) {e : ε}
    {s' : σ} :
    p.run s = .error e s' ↔ x = .error e ∧ s' = s := by
  rw [h]
  cases x <;> simp [outcome, eq_comm]

theorem Mirrors.eq_ok_iff {p : EStateM ε σ Unit} {x : Except ε σ} (h : Mirrors s p x) {s' : σ} :
    p.run s = .ok () s' ↔ x = .ok s' := by
  rw [h]
  cases x <;> simp [outcome]

end Rules

variable {w : Workspace}

theorem ends_assign (w : Workspace) (id : String) (change : Record → Record) :
    Ends w (assign id change) (w.modify id change) := rfl

theorem mirrors_refuseIf {c : Prop} [Decidable c] {error : Workspace.Error} {node source : String}
    {k : Procedure Unit} {x : Except Failure Workspace} (hk : Mirrors w k x) :
    Mirrors w (refuseIf c error node source >>= fun _ => k)
      (if c then Workspace.refuse error node source else x) := by
  unfold Mirrors refuseIf
  rw [EStateM.run_bind]
  split_ifs
  · rfl
  · exact hk

theorem mirrors_find {id : String} {k : Record → Procedure Unit}
    {k' : Record → Except Failure Workspace} (hk : ∀ r, Mirrors w (k r) (k' r)) :
    Mirrors w (find id >>= k) (w.find id >>= k') :=
  mirrors_ofExcept hk

/-! ## Each edit -/

theorem add_mirrors (r : Record) : Mirrors w (add r) (w.add r) := by
  unfold add Workspace.add
  refine mirrors_refuseIf (mirrors_get (mirrors_refuseIf (mirrors_get (mirrors_refuseIf ?_))))
  exact ((ends_modify _ _).bind (ends_modify _ _)).mirrors

theorem update_mirrors (id : String) (data : Data) :
    Mirrors w (update id data) (w.update id data) := by
  unfold update Workspace.update
  exact mirrors_find fun r => (ends_assign w id _).mirrors

theorem connect_mirrors (source : String) (p : Port) (target : String) :
    Mirrors w (connect source p target) (w.connect source p target) := by
  unfold connect Workspace.connect
  refine mirrors_refuseIf (mirrors_find fun src => mirrors_find fun dest =>
    mirrors_ofExcept fun _ => ?_)
  refine mirrors_refuseIf (mirrors_get (mirrors_refuseIf ?_))
  exact ((ends_assign _ _ _).bind (ends_assign _ _ _)).mirrors

theorem connectInput_mirrors (producer target : String) (s : Slot) :
    Mirrors w (connectInput producer target s) (w.connectInput producer target s) := by
  unfold connectInput Workspace.connectInput
  refine mirrors_refuseIf (mirrors_find fun p => mirrors_find fun t =>
    mirrors_refuseIf (mirrors_refuseIf ?_))
  exact (ends_assign w target _).mirrors

theorem disconnectInput_mirrors (id : String) (s : Slot) :
    Mirrors w (disconnectInput id s) (w.disconnectInput id s) := by
  unfold disconnectInput Workspace.disconnectInput
  exact mirrors_find fun r => (ends_assign w id _).mirrors

theorem modify_self (x : String) : (w.modify x fun r => r) = w := by
  obtain ⟨records, index⟩ := w
  unfold Workspace.modify
  split
  · rename_i i _
    have hsame : records.modify i (fun r => r) = records := List.modify_id i records
    simp only [hsame]
  · rfl

theorem modify_modify (x : String) (f g : Record → Record) :
    (w.modify x f).modify x g = w.modify x fun r => g (f r) := by
  unfold Workspace.modify
  cases hx : w.index.get? x with
  | none => simp only [hx]
  | some i =>
    simp only [hx, List.modify_modify_eq]
    rfl

theorem foldl_modify {α : Type} (x : String) (change : α → Record → Record) (w : Workspace)
    (l : List α) :
    l.foldl (fun w a => w.modify x (change a)) w =
      w.modify x fun r => l.foldl (fun r a => change a r) r := by
  induction l generalizing w with
  | nil => exact (modify_self x).symm
  | cons a rest ih =>
    rw [List.foldl_cons, ih, modify_modify]
    rfl

theorem disconnect_mirrors (id : String) (p : Port) :
    Mirrors w (disconnect id p) (w.disconnect id p) := by
  unfold disconnect Workspace.disconnect
  refine mirrors_find fun r => ?_
  cases p with
  | next | onTrue | onFalse => exact mirrors_unless ((ends_assign _ _ _).bind (ends_assign _ _ _))
  | top =>
    refine mirrors_unless (Ends.bind ?_ (ends_assign _ _ _))
    have hloop :=
      ends_forM
        (fun w q => ends_assign w r.previous fun x => if x.link q = id then x.setLink q "" else x)
        w Port.outgoing
    rwa [foldl_modify] at hloop
  | unlisted code => rfl

/-! ## Removing a block -/

/-- The workspace after `settle`. -/
def settled (id : String) (w : Workspace) (i : Nat) : Workspace :=
  match w.records[i]? with
  | none => w
  | some r => ⟨w.records.modify i (Workspace.forget id), w.index.put r.id i⟩

theorem ends_settle (id : String) (w : Workspace) (i : Nat) :
    Ends w (settle id i) (settled id w i) := by
  unfold Ends settle settled
  rw [EStateM.run_bind, EStateM.run_get]
  cases hr : w.records[i]? with
  | none => simp only [hr]; rfl
  | some r => simp only [hr]; rfl

theorem modify_middle (before : List Record) (r : Record) (rest : List Record)
    (f : Record → Record) :
    (before ++ r :: rest).modify before.length f = before ++ f r :: rest := by
  induction before with
  | nil => rfl
  | cons x before ih => simp [ih]

/-- The loop over positions: those before it are settled already. -/
theorem foldl_settled (id : String) (before rest : List Record) (index : Table Nat) :
    (List.range' before.length rest.length).foldl (settled id) ⟨before ++ rest, index⟩ =
      ⟨before ++ rest.map (Workspace.forget id),
        Workspace.positionsFrom before.length index (rest.map (Workspace.forget id))⟩ := by
  induction rest generalizing before index with
  | nil => rfl
  | cons r rest ih =>
    have hnext : settled id ⟨before ++ r :: rest, index⟩ before.length =
        ⟨(before ++ [Workspace.forget id r]) ++ rest, index.put r.id before.length⟩ := by
      simp [settled, modify_middle]
    rw [List.length_cons, List.range'_succ, List.foldl_cons, hnext]
    have hrest := ih (before ++ [Workspace.forget id r]) (index.put r.id before.length)
    have hid : (Workspace.forget id r).id = r.id := rfl
    simpa [Workspace.positionsFrom, hid] using hrest

theorem remove_mirrors (id : String) : Mirrors w (remove id) (w.remove id) := by
  unfold remove Workspace.remove
  refine mirrors_get ?_
  cases w.index.get? id with
  | none => rfl
  | some i =>
    have hloop := ends_forM (ends_settle id) ⟨w.records.eraseIdx i, w.index.erase id⟩
      (List.range (w.records.eraseIdx i).length)
    have hall := foldl_settled id [] (w.records.eraseIdx i) (w.index.erase id)
    rw [List.range_eq_range'] at hloop
    simp only [List.length_nil, List.nil_append] at hall
    rw [hall, ← List.range_eq_range'] at hloop
    exact ((ends_modify _ _).bind ((ends_modify _ _).bind (ends_get hloop))).mirrors

theorem procedure_mirrors (w : Workspace) (e : Edit) : Mirrors w (procedure e) (w.apply e) := by
  cases e with
  | add r => exact add_mirrors r
  | remove id => exact remove_mirrors id
  | update id data => exact update_mirrors id data
  | connect source p target => exact connect_mirrors source p target
  | disconnect id p => exact disconnect_mirrors id p
  | connectInput producer target s => exact connectInput_mirrors producer target s
  | disconnectInput id s => exact disconnectInput_mirrors id s

end Flowchart.InPlace
