import MailboxAccess.Session.Action

/-!
Scripted sessions. While a step runs, rules may interfere just before a call that it makes: a rival takes
steps of its own on the same store, or the call is made to fail. So a race or a failure happens at a chosen
call, and happens again whenever the session is run again.
-/
namespace MailboxAccess

inductive Point where
  | read | hook | insert | swap | overwrite | upsert | delete | retrieve | listIdentity | listMailbox
  deriving DecidableEq, Repr

def Request.point : Request → Point
  | .read _ => .read
  | .insert _ _ => .insert
  | .swap _ _ _ _ => .swap
  | .overwrite _ _ => .overwrite
  | .upsert _ _ _ => .upsert
  | .delete _ _ => .delete
  | .retrieve _ _ => .retrieve
  | .listIdentity _ => .listIdentity
  | .listMailbox _ => .listMailbox

inductive Reached where
  | request (request : Request)
  | hook (attempt : Nat)

def Reached.point : Reached → Point
  | request r => r.point
  | hook _ => .hook

inductive Interference where
  | fail (error : AccessError)
  | rival (step : Step)

structure Rule where
  point : Point
  /-- At which of the calls of this kind, counted from one; zero is every one. -/
  nth : Nat
  lines : List Interference
  /-- Whether results of rivals are left out of the report. -/
  quiet : Bool

def Rule.fires (rule : Rule) (point : Point) (count : Nat) : Bool :=
  rule.point = point && (rule.nth = 0 || rule.nth = count)

structure RivalReport where
  point : Point
  count : Nat
  result : Except Failure Answer

/-- A session while one step runs, with what is to be reported of it, newest first. -/
structure Stage where
  session : Session
  reached : List Reached
  rivals : List RivalReport
  heard : List (Nat × Commit)

namespace Session

def answer (c : Call) (session : Session) : c.Answer × Session :=
  let (reply, store) := Store.answer c session.store
  (reply, { session with store })

def carryOut {σ : Type} (answer : (c : Call) → σ → c.Answer × σ) (session : σ → Session)
    (replace : σ → Session → σ) (action : Action) (world : σ) : Except Failure Answer × σ :=
  match action with
  | .plan plan =>
    match plan.run answer world with
    | (.ok a, world) => (.ok a, world)
    | (.error e, world) => (.error (.access e), world)
  | .contest editor mailbox command rivals =>
    let (result, injected, world) := Contested.update editor answer mailbox command rivals world
    (.ok (.contested injected result), world)
  | .direct change =>
    match change (session world) with
    | .ok (a, next) => (.ok a, replace world next)
    | .error e => (.error e, world)

def rivalStep (settings : Settings) (step : Step) (session : Session) : Except Failure Answer × Session :=
  match Action.ofStep settings false step with
  | .ok action => carryOut answer id (fun _ next => next) action session
  | .error e => (.error e, session)

end Session

namespace Stage

variable (settings : Settings)

def interfere (point : Point) (count : Nat) (quiet : Bool) :
    List Interference → Stage → Option AccessError × Stage
  | [], stage => (none, stage)
  | .fail e :: _, stage => (some e, stage)
  | .rival step :: lines, stage =>
    let (result, session) := stage.session.rivalStep settings step
    let rivals := if quiet then stage.rivals else ⟨point, count, result⟩ :: stage.rivals
    interfere point count quiet lines { stage with session, rivals }

/-- The rules that fire, in their order, up to one that makes the call fail. -/
def consult (point : Point) (count : Nat) : List Rule → Stage → Option AccessError × Stage
  | [], stage => (none, stage)
  | rule :: rules, stage =>
    if rule.fires point count then
      match interfere settings point count rule.quiet rule.lines stage with
      | (some e, stage) => (some e, stage)
      | (none, stage) => consult point count rules stage
    else consult point count rules stage

def reach (rules : List Rule) (call : Reached) (stage : Stage) : Option AccessError × Stage :=
  let reached := call :: stage.reached
  let count := (reached.filter fun earlier => earlier.point = call.point).length
  consult settings call.point count rules { stage with reached }

/-- A store can fail only in its own ways, so any other failure is about its data. -/
def storeFailure : AccessError → StoreError
  | .store cause => cause
  | other => .invalidData (other.message?.getD "")

def hear (stage : Stage) (listener : Nat) (commit : Commit) : Bool × Stage :=
  match settings.listeners[listener]? with
  | some .record => (true, { stage with heard := (listener, commit) :: stage.heard })
  | some .fail => (false, { stage with heard := (listener, commit) :: stage.heard })
  | some .broadcast =>
    (true, { stage with session := { stage.session with feed := stage.session.feed.send commit } })
  | none => (true, stage)

def answer (rules : List Rule) : (c : Call) → Stage → c.Answer × Stage
  | .store request, stage =>
    match stage.reach settings rules (.request request) with
    | (some e, stage) => (.error (storeFailure e), stage)
    | (none, stage) =>
      let (reply, session) := stage.session.answer (.store request)
      (reply, { stage with session })
  | .hook _ attempt, stage =>
    match stage.reach settings rules (.hook attempt) with
    | (some e, stage) => (.error e, stage)
    | (none, stage) => (.ok (), stage)
  | .notify listener commit, stage => stage.hear settings listener commit

end Stage

structure ScriptedStep where
  step : Step
  rules : List Rule
  watched : Option String

structure Contents where
  record : Except StoreError (Option Record)
  rows : Except StoreError (SortedMap EntryKey Rights)

structure Report where
  result : Except Failure Answer
  heard : List (Nat × Commit)
  rivals : List RivalReport
  reached : List Reached
  contents : Option Contents

namespace Session

def contentsOf (session : Session) (mailbox : MailboxId) : Contents :=
  ⟨session.store.look (.read mailbox), session.store.look (.listMailbox mailbox)⟩

def watch (session : Session) (watched : Option String) : Option Contents := do
  return session.contentsOf (← (MailboxId.parse (← watched)).toOption)

def take (settings : Settings) (scripted : ScriptedStep) (session : Session) : Report × Session :=
  let start : Stage := ⟨session, [], [], []⟩
  let (result, stage) :=
    match Action.ofStep settings true scripted.step with
    | .ok action =>
      carryOut (Stage.answer settings scripted.rules) Stage.session
        (fun stage session => { stage with session }) action start
    | .error e => (.error e, start)
  let report : Report :=
    { result
      heard := stage.heard.reverse
      rivals := stage.rivals.reverse
      reached := stage.reached.reverse
      contents := stage.session.watch scripted.watched }
  (report, stage.session)

def run (settings : Settings) : List ScriptedStep → Session → List Report
  | [], _ => []
  | scripted :: later, session =>
    let (report, next) := session.take settings scripted
    report :: run settings later next

inductive OpenError where
  | store (cause : StoreError)
  | capacity
  deriving DecidableEq

def begin (store : Except StoreError Store) (capacity : Nat) : Except OpenError Session :=
  match store with
  | .error e => .error (.store e)
  | .ok store =>
    match Feed.make? capacity with
    | some feed => .ok ⟨store, feed⟩
    | none => .error .capacity

end Session

end MailboxAccess
