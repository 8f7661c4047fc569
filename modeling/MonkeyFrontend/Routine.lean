import MonkeyFrontend.Diagnostics
import MonkeyFrontend.Reading
import MonkeyFrontend.Window

/-!
# Routines

A routine reads with a window in front of it and a collection of diagnostics beside it. It looks at
the two tokens that the window shows, moves the window forward, and records what is wrong. What the
collection holds already, from other sources or from the same one, is there for it to see, and
nothing in the type keeps it from looking or from taking something out.

The window can only be moved forward: that is a field of the type, so every routine that can be
written down keeps to it.
-/

namespace MonkeyFrontend

/-- A window over a text, and the diagnostics recorded so far. -/
structure Reader where
  window : Window
  diagnostics : Diagnostics
deriving DecidableEq

/-- Something that is done with a reader and gives a value, or fails. -/
structure Routine (α : Type) where
  /-- What becomes of a reader. -/
  run : Reader → Option α × Reader
  /-- The window stays or moves forward. -/
  reaches_rest : ∀ reader : Reader, reader.window.Reaches (run reader).2.window

namespace Routine

variable {α β : Type}

/-- Gives a view of the window and leaves everything as it is. -/
def look (view : Window → α) : Routine α :=
  ⟨fun reader => (some (view reader.window), reader), fun reader => .refl reader.window⟩

/-- Moves the window. -/
def move (onward : Window → Window) (h : ∀ window : Window, window.Reaches (onward window)) :
    Routine Unit :=
  ⟨fun reader => (some (), { reader with window := onward reader.window }),
    fun reader => h reader.window⟩

/-- A routine and the one that its value asks for. A failure of the first ends the whole. -/
def andThen (first : Routine α) (next : α → Routine β) : Routine β where
  run reader :=
    match first.run reader with
    | (none, rest) => (none, rest)
    | (some a, rest) => (next a).run rest
  reaches_rest reader := by
    have hfirst := first.reaches_rest reader
    split
    next found =>
      rw [found] at hfirst
      exact hfirst
    next a rest found =>
      rw [found] at hfirst
      exact hfirst.trans ((next a).reaches_rest rest)

instance : Monad Routine where
  pure a := look fun _ => a
  bind := andThen

theorem run_bind_of_none {first : Routine α} {next : α → Routine β} {reader rest : Reader}
    (h : first.run reader = (none, rest)) : (first >>= next).run reader = (none, rest) := by
  simp [bind, andThen, h]

theorem run_bind_of_some {first : Routine α} {next : α → Routine β} {reader rest : Reader} {a : α}
    (h : first.run reader = (some a, rest)) :
    (first >>= next).run reader = (next a).run rest := by
  simp [bind, andThen, h]

instance : Reading Routine where
  current := look Window.current
  peek := look Window.peek
  depth := look Window.depth
  advance := move Window.advance Window.reaches_advance
  skip home := move (Window.skip home) (Window.reaches_skip home)
  fail := ⟨fun reader => (none, reader), fun reader => .refl reader.window⟩
  abort fault :=
    ⟨fun reader =>
      (none, { reader with diagnostics := reader.diagnostics.record fault.message }),
      fun reader => .refl reader.window⟩
  attempt routine :=
    ⟨fun reader => (some (routine.run reader).1, (routine.run reader).2), routine.reaches_rest⟩
  bounded within :=
    ⟨fun reader => (within (reader.window.left + 1)).run reader,
      fun reader => (within (reader.window.left + 1)).reaches_rest reader⟩

end Routine

end MonkeyFrontend
