import ToolchainHost.Guest.Program
import ToolchainHost.Guest.Termination

/-!
# Engines

An engine fetches and compiles modules and makes instances of them. The host is written against this record and
knows nothing else about the machine it runs on.
-/

namespace ToolchainHost

/-- An engine with states `σ`, whose compiled modules are of type `μ` and whose instances have states `γ`. -/
structure Engine (σ μ γ : Type) where
  /-- Fetches the bytes with a name. -/
  fetch : String → Op σ (List UInt8)
  /-- Fetches and compiles the module with a name. -/
  compileNamed : String → Op σ μ
  /-- Compiles the bytes of a module. -/
  compileBytes : List UInt8 → Op σ μ
  /-- Makes the file store's module ready. -/
  instantiateStore : String → Op σ Unit
  /-- Makes an instance, with its memory or the reason why it has none. -/
  instantiate : μ → Op σ (Except Failure Memory × γ)
  /-- What an instance in some state does when an export is called, and the state it is left in. -/
  call : String → γ → Program (Except Trap Unit × γ)

end ToolchainHost
