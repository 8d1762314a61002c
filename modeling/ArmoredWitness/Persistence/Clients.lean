import ArmoredWitness.Persistence.Directory

/-! Clients that use one persistence at the same time. `Update` and `Latest` drop every
lock between their steps: the search for the slot holds the lock of the persistence,
opening, reading and writing the slot hold the lock of the slot, and the callback holds
none. A run is any sequence of such steps, by any number of clients. -/
namespace ArmoredWitness.Persistence
open Lib Lib.Action Slots

variable {M : Machine} {Origin LogID : Type} [DecidableEq LogID]

inductive Request (Origin : Type)
  | update (origin : Origin) (f : SlotPersistence.Callback)
  | latest (origin : Origin)

/-- How far a call has come. -/
inductive Stage (LogID : Type)
  | called
  | located (i : ℕ)
  | opened (i : ℕ)
  | fetched (i : ℕ) (t : UInt32) (currCP : Checkpoint)
  | applied (i : ℕ) (t : UInt32) (currCP : Checkpoint) (newCP : List UInt8)
  | returned (r : Result LogID)

def Stage.isReturned : Stage LogID → Bool
  | .returned _ => true
  | _ => false

namespace Request

def origin : Request Origin → Origin
  | .update origin _ => origin
  | .latest origin => origin

/-- Whether the search for the slot may assign one. -/
def creates : Request Origin → Bool
  | .update _ _ => true
  | .latest _ => false

/-- The next step of a call, up to where a lock is released. -/
def step (E : External Origin LogID) (fault : Fault) : Request Origin → Stage LogID →
    Action (SlotPersistence M LogID) (PersistenceError LogID) (Stage LogID)
  | q, .called => do
    let i ← SlotPersistence.logSlot E fault (E.logID q.origin) q.creates
    pure (.located i)
  | q, .located i => do
    SlotPersistence.onPart (.openSlot i (E.logID q.origin)) fun part => part.openSlot i
    pure (.opened i)
  | .update _ _, .opened i => do
    let (b,t) ← SlotPersistence.onPart .read fun part => part.read i
    let currCP ← lift ((unmarshalCheckpoint E b).mapError .unmarshalCheckpoint)
    pure (.fetched i t currCP)
  | .latest _, .opened i => do
    let (b,_) ← SlotPersistence.onPart .read fun part => part.read i
    let cp ← (if b.length = 0 then fail .noCheckpoint
      else lift ((unmarshalCheckpoint E b).mapError .unmarshalCheckpoint))
    pure (.returned (.checkpoint (.ok cp)))
  | .update _ f, .fetched i t currCP => do
    let newCP ← lift ((f currCP).mapError .callback)
    pure (.applied i t currCP newCP)
  | .update _ _, .applied i t _ newCP => do
    SlotPersistence.onPart .write fun part => part.checkAndWrite fault i t (marshalCheckpoint newCP)
    pure (.returned (.done (.ok ())))
  | _, stage => pure stage

/-- What a call returns that ends with an error or a panic. -/
def failure (q : Request Origin) (e : Outcome (PersistenceError LogID) Empty) : Result LogID :=
  match q with
  | .update _ _ => .done (e.map Empty.elim)
  | .latest _ => .checkpoint (e.map Empty.elim)

/-- The stage after a step. -/
def settle (q : Request Origin) : Outcome (PersistenceError LogID) (Stage LogID) → Stage LogID
  | .ok stage => stage
  | .error e => .returned (q.failure (.error e))
  | .panic p => .returned (q.failure (.panic p))

end Request

structure Client (Origin LogID : Type) where
  request : Request Origin
  stage : Stage LogID

/-- A step that was taken. -/
structure Transition (Origin LogID : Type) where
  request : Request Origin
  source : Stage LogID
  target : Stage LogID

structure System (M : Machine) (Origin LogID : Type) where
  shared : SlotPersistence M LogID
  clients : List (Client Origin LogID)
  history : List (Transition Origin LogID)

/-- A new call, or the next step of one, with how the device treats its write. -/
inductive Move (Origin : Type)
  | call (q : Request Origin)
  | advance (k : ℕ) (fault : Fault)

namespace System
variable (E : External Origin LogID)

def step (σ : System M Origin LogID) : Move Origin → System M Origin LogID
  | .call q => {σ with clients := σ.clients ++ [⟨q,.called⟩]}
  | .advance k fault =>
    match σ.clients[k]? with
    | none => σ
    | some c =>
      if c.stage.isReturned then σ else
      let (p,r) := c.request.step E fault c.stage σ.shared
      { shared := p
        clients := σ.clients.set k ⟨c.request,c.request.settle r⟩
        history := σ.history ++ [⟨c.request,c.stage,c.request.settle r⟩] }

/-- The system after the moves, from a persistence that nobody uses yet. -/
def run (p : SlotPersistence M LogID) (moves : List (Move Origin)) : System M Origin LogID :=
  moves.foldl (step E) ⟨p,[],[]⟩

lemma run_snoc (p : SlotPersistence M LogID) (moves : List (Move Origin)) (move : Move Origin) :
    run E p (moves ++ [move]) = (run E p moves).step E move := by
  rw [run,List.foldl_append]
  rfl

variable {E} in
lemma step_advance {σ : System M Origin LogID} {k : ℕ} {c : Client Origin LogID} (hc : σ.clients[k]? = some c)
    (h : c.stage.isReturned = false) (fault : Fault) : σ.step E (.advance k fault) =
      ⟨(c.request.step E fault c.stage σ.shared).1,
        σ.clients.set k ⟨c.request,c.request.settle (c.request.step E fault c.stage σ.shared).2⟩,
        σ.history ++ [⟨c.request,c.stage,c.request.settle (c.request.step E fault c.stage σ.shared).2⟩]⟩ := by
  simp only [step,hc,h,Bool.false_eq_true,if_false]

end System

/-- An `Update` that returned nil: what its callback was given, and what it made of it. -/
structure Success (Origin : Type) where
  origin : Origin
  slot : ℕ
  f : SlotPersistence.Callback
  current : Checkpoint
  new : List UInt8

def Transition.success : Transition Origin LogID → Option (Success Origin)
  | ⟨.update origin f,.applied i _ currCP newCP,.returned (.done (.ok _))⟩ => some ⟨origin,i,f,currCP,newCP⟩
  | _ => none

/-- The successful updates of an origin, in the order of their writes. -/
def updatesOf [DecidableEq Origin] (origin : Origin) (history : List (Transition Origin LogID)) :
    List (Success Origin) := (history.filterMap Transition.success).filter fun u => u.origin = origin

/-- The successful writes to a slot. -/
def writesTo (i : ℕ) (history : List (Transition Origin LogID)) : List (Success Origin) :=
  (history.filterMap Transition.success).filter fun u => u.slot = i

/-- The newest checkpoint after the updates, if there is one. -/
def newest (initial : Option Checkpoint) (us : List (Success Origin)) : Option Checkpoint :=
  us.foldl (fun _ u => some (some u.new)) initial

/-- Each callback was given the checkpoint that the update before it stored. -/
def Chain : Option Checkpoint → List (Success Origin) → Prop
  | _, [] => True
  | initial, u::us => u.current = initial.join ∧ u.f u.current = .ok u.new ∧ Chain (some (some u.new)) us

lemma newest_snoc (initial : Option Checkpoint) (us : List (Success Origin)) (u : Success Origin) :
    newest initial (us ++ [u]) = some (some u.new) := by
  rw [newest,List.foldl_append]
  rfl

lemma chain_snoc {initial : Option Checkpoint} {us : List (Success Origin)} {u : Success Origin} :
    Chain initial (us ++ [u]) ↔
      Chain initial us ∧ u.current = (newest initial us).join ∧ u.f u.current = .ok u.new := by
  induction us generalizing initial with
  | nil => simp [Chain,newest]
  | cons v us ih =>
    have hnewest : newest initial (v::us) = newest (some (some v.new)) us := rfl
    rw [List.cons_append,Chain,Chain,ih,hnewest]
    tauto

/-- What a call of `Latest` says: that there is no checkpoint, which is the error
`NotFound`, or a checkpoint. -/
def answer : Outcome (PersistenceError LogID) Checkpoint → Outcome (PersistenceError LogID) (Option Checkpoint)
  | .ok cp => .ok (some cp)
  | .error e => if e.isNotFound then .ok none else .error e
  | .panic p => .panic p

/-- The checkpoint of an origin: what `Latest` says, called on its own. -/
def SlotPersistence.checkpoint (E : External Origin LogID) (p : SlotPersistence M LogID) (origin : Origin) :
    Outcome (PersistenceError LogID) (Option Checkpoint) := answer (latest E origin p).2

section Alone
variable {E : External Origin LogID} {p : SlotPersistence M LogID} {q : Request Origin} {stage : Stage LogID}
  {history : List (Transition Origin LogID)} {fault : Fault} {α β : Type}

lemma System.step_alone (h : stage.isReturned = false) :
    System.step E ⟨p,[⟨q,stage⟩],history⟩ (.advance 0 fault) =
      ⟨(q.step E fault stage p).1,[⟨q,q.settle (q.step E fault stage p).2⟩],
        history ++ [⟨q,stage,q.settle (q.step E fault stage p).2⟩]⟩ :=
  System.step_advance (σ := ⟨p,[⟨q,stage⟩],history⟩) (k := 0) (c := ⟨q,stage⟩) rfl h fault

/-- A client that has returned takes no more steps. -/
lemma System.stay_alone (r : Result LogID) (faults : List Fault) :
    (faults.map (Move.advance 0)).foldl (System.step E) ⟨p,[⟨q,.returned r⟩],history⟩ =
      ⟨p,[⟨q,.returned r⟩],history⟩ := by
  induction faults with
  | nil => rfl
  | cons fault faults ih =>
    have hstep : System.step E ⟨p,[⟨q,.returned r⟩],history⟩ (.advance 0 fault) =
        ⟨p,[⟨q,.returned r⟩],history⟩ := rfl
    rw [List.map_cons,List.foldl_cons,hstep,ih]

/-- From this stage on, a client that is alone does what the action does, and returns
what it returns. -/
def Finishes (E : External Origin LogID) (q : Request Origin)
    (ret : Outcome (PersistenceError LogID) α → Result LogID)
    (faults : List Fault) (stage : Stage LogID)
    (x : Action (SlotPersistence M LogID) (PersistenceError LogID) α) : Prop :=
  ∀ p history, ∃ history', (faults.map (Move.advance 0)).foldl (System.step E) ⟨p,[⟨q,stage⟩],history⟩ =
    ⟨(x p).1,[⟨q,.returned (ret (x p).2)⟩],history'⟩

namespace Finishes
variable {ret : Outcome (PersistenceError LogID) α → Result LogID} {faults : List Fault}

/-- The last step. -/
lemma last (hret : ∀ e, q.failure e = ret (e.map Empty.elim)) (hstage : stage.isReturned = false)
    {x : Action (SlotPersistence M LogID) (PersistenceError LogID) α}
    (hstep : q.step E fault stage = x >>= fun a => pure (.returned (ret (.ok a)))) :
    Finishes E q ret [fault] stage x := by
  intro p history
  rw [List.map_singleton,List.foldl_cons,System.step_alone hstage,hstep,bind_run,List.foldl_nil]
  cases x p with
  | mk p' r =>
    cases r with
    | ok a => exact ⟨_,rfl⟩
    | error e =>
      rw [next_error,Request.settle,hret]
      exact ⟨_,rfl⟩
    | panic e =>
      rw [next_panic,Request.settle,hret]
      exact ⟨_,rfl⟩

/-- A step that leads to the next stage. -/
lemma bind (hret : ∀ e, q.failure e = ret (e.map Empty.elim)) (hstage : stage.isReturned = false)
    {y : Action (SlotPersistence M LogID) (PersistenceError LogID) β} {g : β → Stage LogID}
    (hstep : q.step E fault stage = y >>= fun b => pure (g b))
    {k : β → Action (SlotPersistence M LogID) (PersistenceError LogID) α}
    (hrest : ∀ b, Finishes E q ret faults (g b) (k b)) : Finishes E q ret (fault::faults) stage (y >>= k) := by
  intro p history
  rw [List.map_cons,List.foldl_cons,System.step_alone hstage,hstep,bind_run,bind_run]
  cases y p with
  | mk p' r =>
    cases r with
    | ok b => exact hrest b p' _
    | error e =>
      rw [next_error,next_error,Request.settle,System.stay_alone,hret]
      exact ⟨_,rfl⟩
    | panic e =>
      rw [next_panic,next_panic,Request.settle,System.stay_alone,hret]
      exact ⟨_,rfl⟩

end Finishes

/-- The steps of an `Update` with nothing in between are the method. -/
theorem update_alone (faults : SlotPersistence.Faults) (o : Origin) (f : SlotPersistence.Callback) :
    Finishes (M := M) E (.update o f) .done [faults.directory,none,none,none,faults.checkpoint] .called
      (SlotPersistence.update E faults o f) := by
  have hret : ∀ e : Outcome (PersistenceError LogID) Empty,
      (Request.update o f).failure e = .done (e.map Empty.elim) := fun _ => rfl
  simp only [SlotPersistence.update,SlotPersistence.prepare,SlotPersistence.openAndRead,bind_assoc,pure_bind]
  refine .bind hret rfl (g := .located) rfl fun i => .bind hret rfl (g := fun _ => .opened i) rfl fun _ => ?_
  have hstep : Request.step (M := M) E none (.update o f) (.opened i) =
      (SlotPersistence.onPart .read (fun part => part.read i) >>= fun x =>
        lift ((unmarshalCheckpoint E x.1).mapError .unmarshalCheckpoint) >>= fun currCP => pure (x.2,currCP)) >>=
      fun y => pure (.fetched i y.1 y.2) := by
    simp only [Request.step,bind_assoc,pure_bind]
  have happly : ∀ y : UInt32 × Checkpoint, Finishes (M := M) E (.update o f) .done [none,faults.checkpoint]
      (.fetched i y.1 y.2) (lift ((f y.2).mapError .callback) >>= fun newCP => SlotPersistence.onPart .write
        fun part => part.checkAndWrite faults.checkpoint i y.1 (marshalCheckpoint newCP)) := fun y =>
    .bind hret rfl (g := .applied i y.1 y.2) rfl fun newCP => .last hret rfl rfl
  have hrest := Finishes.bind hret rfl hstep happly
  simp only [bind_assoc,pure_bind] at hrest
  exact hrest

/-- The steps of a `Latest` with nothing in between are the method. -/
theorem latest_alone (o : Origin) :
    Finishes (M := M) E (.latest o) .checkpoint [none,none,none] .called (SlotPersistence.latest E o) := by
  have hret : ∀ e : Outcome (PersistenceError LogID) Empty,
      (Request.latest o).failure e = .checkpoint (e.map Empty.elim) := fun _ => rfl
  simp only [SlotPersistence.latest,SlotPersistence.openAndRead,bind_assoc]
  refine .bind hret rfl (g := .located) rfl fun i => .bind hret rfl (g := fun _ => .opened i) rfl fun _ => ?_
  refine .last hret rfl ?_
  simp only [Request.step,bind_assoc]

end Alone
end ArmoredWitness.Persistence
