import TableLexer.FileTree
/-!
Inquiries: computations that ask a file system about paths.  What an inquiry asks next may depend on
the answers so far; who answers is left open.
-/

namespace TableLexer

/-- A computation that is done, or that has a question about a path. -/
inductive Inquiry (α : Type) where
  | done (value : α)
  | ask (path : Path) (next : FileAnswer → Inquiry α)

namespace Inquiry

def about (path : Path) : Inquiry FileAnswer := .ask path .done

def bind {α β : Type} (x : Inquiry α) (f : α → Inquiry β) : Inquiry β :=
  match x with
  | done value => f value
  | ask path next => .ask path fun answer => (next answer).bind f

instance : Monad Inquiry where
  pure := done
  bind := bind

/-- The value of an inquiry whose questions a file view answers. -/
def answered {α : Type} (view : FileView) : Inquiry α → α
  | done value => value
  | ask path next => (next (view path)).answered view

theorem answered_bind {α β : Type} (view : FileView) (x : Inquiry α) (f : α → Inquiry β) :
    (x.bind f).answered view = (f (x.answered view)).answered view := by
  induction x with
  | done value => rfl
  | ask path next ih => exact ih (view path)

end Inquiry

end TableLexer
