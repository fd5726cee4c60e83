import Ostinato.Disk.Path
import Ostinato.Number.Fraction
import Ostinato.Text.Quoted

/-!
# The log of a build

Every entry says one thing that a build did. A computation that keeps a log keeps it also when it
fails.
-/

namespace Ostinato

/-- How much an entry matters. -/
inductive Level
  | debug
  | info
  deriving DecidableEq, Repr

/-- One thing that a build did. -/
inductive LogEntry
  | reading (key : String) (path : Path)
  /-- An instrument whose type an earlier one has already. -/
  | shadowed (name earlier : String) (type : Text)
  | loaded (count : Nat) (directory : Path)
  | seated (name : String) (channel : Int)
  | compiled (file : String) (type : Text) (channel : Int) (notes : Nat) (pattern : Rat)
  | wrote (tracks : Nat) (path : Path)
  | built (tracks events : Nat) (path : Path)
  deriving DecidableEq, Repr

namespace LogEntry

/-- How much an entry matters. -/
def level : LogEntry → Level
  | reading .. | shadowed .. | seated .. => .debug
  | _ => .info

/-- The text of an entry. -/
def text : LogEntry → String
  | reading key path => "Reading " ++ key ++ " descriptor " ++ path.text
  | shadowed name earlier type =>
    "Instrument " ++ name ++ " shadowed by " ++ earlier ++ " for type " ++ type.quoted
  | loaded count directory =>
    "Loaded " ++ integerText count ++ " instruments from " ++ directory.text
  | seated name channel => "Instrument " ++ name ++ " -> channel " ++ integerText channel
  | compiled file type channel notes pattern =>
    "Compiled " ++ file ++ ": " ++ type.string ++ " on channel " ++ integerText channel ++ ", " ++
      integerText notes ++ " notes, pattern " ++ fractionText pattern ++ "s"
  | wrote tracks path => "Wrote " ++ integerText tracks ++ " tracks to " ++ path.text
  | built tracks events path =>
    "Built " ++ integerText tracks ++ " tracks, " ++ integerText events ++ " events -> " ++
      path.text

end LogEntry

/-- The entries that are shown: without `debug` only those that matter. -/
def shownEntries (debug : Bool) (log : List LogEntry) : List LogEntry :=
  log.filter fun e => debug || e.level = .info

/-- A computation that keeps a log and may fail. -/
structure Logged (ε α : Type) where
  log : List LogEntry
  outcome : Except ε α

namespace Logged

variable {ε α β : Type}

/-- A value, without entries. -/
def done (a : α) : Logged ε α := ⟨[], .ok a⟩

/-- One computation after another; a fault ends both. -/
def andThen (x : Logged ε α) (f : α → Logged ε β) : Logged ε β :=
  match x.outcome with
  | .error e => ⟨x.log, .error e⟩
  | .ok a =>
    let y := f a
    ⟨x.log ++ y.log, y.outcome⟩

instance : Monad (Logged ε) where
  pure := done
  bind := andThen

/-- Logs one entry. -/
def emit (e : LogEntry) : Logged ε Unit := ⟨[e], .ok ()⟩

/-- Logs some entries. -/
def emitAll (es : List LogEntry) : Logged ε Unit := ⟨es, .ok ()⟩

/-- A computation without entries. -/
def lift {δ : Type} (f : δ → ε) : Except δ α → Logged ε α
  | .ok a => ⟨[], .ok a⟩
  | .error e => ⟨[], .error (f e)⟩

end Logged

end Ostinato
