import AegisHV.Spec.Vmi

/-! Virtual memory of a guest as the Linux and the Windows inspectors read it (`linux_vmi.rs`,
`windows_vmi.rs`). The readers are traits; a `Reader` is any implementation. -/

namespace AegisHV.Vmi

/-- `LinuxVirtualMemoryReader` and `WindowsVirtualMemoryReader`: a read that succeeds fills the
buffer. -/
structure Reader (ε : Type) where
  readVirtual : ℕ → ℕ → Except ε (List UInt8)
  filled : ∀ address length bytes, readVirtual address length = .ok bytes → bytes.length = length

inductive LinuxVmiError
  | unsupported (operation detail : String)
  | missingProfileField (field : String)
  | malformed (detail : String)
  | inconsistentSnapshot (detail : String)
  | memory (error : MemoryReadError)
  | profile (detail : String)
  | registers (detail : String)
  | backend (detail : String)

inductive WindowsVmiError
  | unsupported (operation detail : String)
  | missingProfileField (field : String)
  | malformed (detail : String)
  | inconsistentSnapshot (detail : String)
  | memory (error : MemoryReadError)
  | registers (detail : String)
  | backend (detail : String)

end AegisHV.Vmi
