import Bearer.Proofs.Asking
import Bearer.Session.Run

namespace Bearer.Session

/-- What a session finds outside: the clock, the answers to come, files and the store. -/
structure World where
  now : Double
  offsets : List Double := []
  replies : List Reply := []
  folder : Folder := {}
  store : TokenStore := {}
  script : List (Option (Result Offer)) := []

namespace World

def session (w : World) (wraps : Bool := false) : Session :=
  { now := w.now, offsets := w.offsets, replies := w.replies, wraps, folder := w.folder,
    store := w.store, script := w.script }

/-- The world around a session has changed. -/
def around (w : World) (s : Session) : Session :=
  { s with
    now := w.now, offsets := w.offsets, replies := w.replies, folder := w.folder
    store := w.store, script := w.script }

end World

inductive Move where
  | call (name : String) (program : Procedure Answer)
  | quietly (program : Procedure Unit)
  | abort (signal : Signal) (reason : Thrown)
  | endOperation (number : Nat) (outcome : Result Offer)
  | release (gate : String)
  | runKept
  /-- The next piece of work is done, with all that belongs to it. -/
  | work
  | world (w : World)

namespace Move

def apply : Move → Session → Session
  | .call name program, s => s.call name program
  | .quietly program, s => s.quietly program
  | .abort signal reason, s => s.abort signal reason
  | .endOperation number outcome, s => s.endOperation number outcome
  | .release gate, s => s.release gate
  | .runKept, s => s.runKept
  | .work, s => (s.work 1).finishCall
  | .world w, s => w.around s

def Asks (P : Query → Prop) : Move → Prop
  | .call _ program => program.Asks P
  | .quietly program => program.Asks P
  | _ => True

end Move

def play (s : Session) (moves : List Move) : Session := moves.foldl (fun s m => m.apply s) s

@[simp] theorem play_nil (s : Session) : s.play [] = s := rfl

@[simp] theorem play_cons (s : Session) (m : Move) (moves : List Move) :
    s.play (m :: moves) = (m.apply s).play moves := rfl

end Bearer.Session
