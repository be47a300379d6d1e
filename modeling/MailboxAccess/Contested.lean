import MailboxAccess.Editor

/-!
Conflicts on demand: before each conditional write of an update, a rival carries out the next of a list of
commands on the same mailbox, so that the write loses.
-/
namespace MailboxAccess

structure Contested (σ : Type) where
  world : σ
  pending : List Command
  injected : Nat

namespace Contested

variable {σ : Type}

/-- The hook runs the rival, and a rival that fails makes the hook fail; all else is the world's. -/
def answer (rival : Editor) (world : (c : Call) → σ → c.Answer × σ) :
    (c : Call) → Contested σ → c.Answer × Contested σ
  | .hook mailbox _, state =>
    match state.pending with
    | [] => (.ok (), state)
    | command :: pending =>
      match (rival.update mailbox command).run world state.world with
      | (.ok _, after) => (.ok (), ⟨after, pending, state.injected + 1⟩)
      | (.error e, after) => (.error e, ⟨after, pending, state.injected⟩)
  | .store request, state =>
    let (reply, after) := world (.store request) state.world
    (reply, { state with world := after })
  | .notify listener commit, state =>
    let (reply, after) := world (.notify listener commit) state.world
    (reply, { state with world := after })

def update (editor : Editor) (world : (c : Call) → σ → c.Answer × σ) (mailbox : MailboxId)
    (command : Command) (rivals : List Command) (start : σ) : Except AccessError Commit × Nat × σ :=
  let (result, state) :=
    ({ editor with hooked := true }.update mailbox command).run
      (answer { editor with hooked := false } world) ⟨start, rivals, 0⟩
  (result, state.injected, state.world)

end Contested

end MailboxAccess
