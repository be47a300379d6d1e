import MailboxAccess.Session.Step

namespace MailboxAccess

inductive ListenerKind where
  | record
  /-- Takes note of every commit and then does not cope. -/
  | fail
  | broadcast
  deriving DecidableEq, Repr

structure Settings where
  codec : Codec
  maxRetries : UInt32
  listeners : List ListenerKind

structure Session where
  store : Store
  feed : Feed

inductive Action where
  | plan (plan : Plan Answer)
  | contest (editor : Editor) (mailbox : MailboxId) (command : Command) (rivals : List Command)
  | direct (change : Session → Except Failure (Answer × Session))

namespace Action

def format {α : Type} : Except FormatError α → Except Failure α
  | .ok a => .ok a
  | .error e => .error (.format e)

def mailbox (text : String) : Except Failure MailboxId :=
  match MailboxId.parse text with
  | .ok mailbox => .ok mailbox
  | .error e => .error (.hex e)

def key (text : String) : Except Failure EntryKey := format (EntryKey.parse text)

def rights (text : String) : Except Failure Rights := format (Rights.parse text)

def editor (settings : Settings) (options : StepOptions) : Except Failure Editor :=
  match Editor.make ⟨options.maxRetries.getD settings.maxRetries⟩ (options.codec.getD settings.codec) with
  | .ok editor => .ok editor
  | .error e => .error (.access e)

def answering {α : Type} (wrap : α → Answer) (plan : Plan α) : Action :=
  .plan do return wrap (← plan)

def ask (request : Request) (wrap : request.Reply → Answer) : Action := answering wrap (Plan.ask request)

def onDatabase {α : Type} (wrap : α → Answer) (change : Database → Except StoreError (α × Database)) :
    Action :=
  .direct fun session =>
    match session.store with
    | .memory _ => .error .unsupported
    | .database db =>
      match change db with
      | .ok (a, next) => .ok (wrap a, { session with store := .database next })
      | .error e => .error (.access (.store e))

def putRecord (mailbox : MailboxId) (acl : Bytes) (version : Int) : Action :=
  .direct fun session =>
    match session.store with
    | .memory memory =>
      .ok (.nothing,
        { session with store := .memory (memory.putRecord mailbox ⟨acl, UInt64.ofNat version.toNat⟩) })
    | .database db =>
      match db.putRecord mailbox acl (Int64.ofInt version) with
      | .ok ((), next) => .ok (.nothing, { session with store := .database next })
      | .error e => .error (.access (.store e))

def reopen (db : Database) : Except StoreError (Unit × Database) :=
  match db.migrate with
  | (.ok (), next) => .ok ((), next)
  | (.error e, _) => .error e

def nothing {α : Type} (_ : α) : Answer := .nothing

/-- `observed` says whether the step's updates have a hook and the session's listeners. -/
def ofStep (settings : Settings) (observed : Bool) : Step → Except Failure Action
  | .update options place text => do
    let place ← mailbox place
    let command ← format text.read
    let editor ← editor settings options
    let observedEditor : Editor :=
      { editor with hooked := observed, listeners := if observed then settings.listeners.length else 0 }
    return answering .commit (observedEditor.update place command)
  | .reset options place text => do
    let place ← mailbox place
    let acl ← format text.read
    let editor ← editor settings options
    return answering nothing (editor.reset place acl)
  | .get options place => do
    let editor ← editor settings options
    return answering .acl (editor.get (← mailbox place))
  | .getVersioned options place => do
    let editor ← editor settings options
    return answering .versioned (editor.getVersioned (← mailbox place))
  | .listUser options name => do
    let _ ← editor settings options
    return answering .byMailbox (Index.listUser name)
  | .listIdentity options identity => do
    let _ ← editor settings options
    return answering .byMailbox (Index.listIdentity (← key identity))
  | .repair options place text => do
    let editor ← editor settings options
    let place ← mailbox place
    match text with
    | some text => return answering .diff (Index.repair place (← format text.read))
    | none => return answering .diff (do Index.repair place (← editor.get place))
  | .contestedUpdate options place text rivals => do
    let place ← mailbox place
    let command ← format text.read
    let rivals ← rivals.mapM fun rival => format rival.read
    let editor ← editor settings { options with codec := some .json }
    return .contest editor place command rivals
  | .retrieve identity place => do
    let identity ← key identity
    return answering .rights (Index.retrieve identity (← mailbox place))
  | .applyDiff place old new => do
    let place ← mailbox place
    let old ← format old.read
    return answering nothing (Index.applyDiff place (Diff.between old (← format new.read)))
  | .storeRead place => do return ask (.read (← mailbox place)) .record
  | .storeInsert place acl => do return ask (.insert (← mailbox place) acl) .flag
  | .storeSwap place acl new expected => do return ask (.swap (← mailbox place) acl new expected) .flag
  | .storeOverwrite place acl => do return ask (.overwrite (← mailbox place) acl) nothing
  | .storeUpsert place identity granted => do
    let place ← mailbox place
    let identity ← key identity
    return ask (.upsert identity place (← rights granted)) nothing
  | .storeDelete place identity => do
    let place ← mailbox place
    return ask (.delete (← key identity) place) nothing
  | .storeRetrieve place identity => do
    let place ← mailbox place
    return ask (.retrieve (← key identity) place) .rights
  | .storeListIdentity identity => do return ask (.listIdentity (← key identity)) .byMailbox
  | .storeListMailbox place => do return ask (.listMailbox (← mailbox place)) .byIdentity
  | .putRecord place acl version => do return putRecord (← mailbox place) acl version
  | .dropRecord place => do
    let place ← mailbox place
    return onDatabase .count fun db => db.dropRecord place
  | .putRow identity place granted => .ok (onDatabase nothing fun db => db.putRow identity place granted)
  | .ensureVersion version =>
    .ok (onDatabase nothing fun db => (db.ensureVersion version).map fun next => ((), next))
  | .reopen => .ok (onDatabase nothing reopen)
  | .subscribe => .ok <| .direct fun session =>
    let (subscriber, feed) := session.feed.subscribe
    .ok (.subscription subscriber feed.count, { session with feed })
  | .unsubscribe subscriber => .ok <| .direct fun session =>
    let feed := session.feed.unsubscribe subscriber
    .ok (.subscribers feed.count, { session with feed })
  | .receive subscriber => .ok <| .direct fun session =>
    match session.feed.receive subscriber with
    | some (received, feed) => .ok (.received received, { session with feed })
    | none => .error .unsupported

end Action

end MailboxAccess
