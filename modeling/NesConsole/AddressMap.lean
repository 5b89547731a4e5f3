import NesConsole.Fault
/-! Which device answers at an address: windows of addresses, each with one owner. -/
namespace NesConsole

structure Window (τ : Type) where
  owner : τ
  first : UInt16
  last : UInt16
  deriving DecidableEq, Repr, Inhabited

def Window.holds {τ : Type} (w : Window τ) (address : UInt16) : Bool :=
  decide (w.first ≤ address) && decide (address ≤ w.last)

/-- The windows of an address space that ends at `limit`, in the order they were connected. -/
structure AddressMap (τ : Type) where
  limit : UInt16
  windows : List (Window τ) := []
  deriving DecidableEq, Repr, Inhabited

structure Devices (τ σ : Type) where
  read : τ → UInt16 → EStateM BusError σ UInt8
  write : τ → UInt16 → UInt8 → EStateM BusError σ Unit

namespace AddressMap
variable {τ : Type}

def owner? (m : AddressMap τ) (address : UInt16) : Option τ :=
  (m.windows.find? (·.holds address)).map (·.owner)

def route (m : AddressMap τ) (address : UInt16) : Except BusError τ :=
  match m.owner? address with
  | some owner => .ok owner
  | none => .error (.unmapped address)

/-- The lowest address from `first` to `last` that has an owner. -/
def firstOwned? (m : AddressMap τ) (first last : UInt16) : Option UInt16 :=
  let met := m.windows.filter fun w => decide (w.first ≤ last) && decide (first ≤ w.last)
  (met.map fun w => if w.first ≤ first then first else w.first).min?

def connect (owner : τ) (first last : UInt16) (m : AddressMap τ) : Except BusError (AddressMap τ) :=
  if last < first then .error (.invalidRange first last)
  else if m.limit < last then .error (.outOfRange first last m.limit)
  else match m.firstOwned? first last with
    | some address => .error (.overlap address)
    | none => .ok { m with windows := m.windows ++ [⟨owner, first, last⟩] }

variable {σ : Type}

def read (m : AddressMap τ) (devices : Devices τ σ) (address : UInt16) :
    EStateM BusError σ UInt8 :=
  match m.route address with
  | .ok owner => devices.read owner address
  | .error e => throw e

def write (m : AddressMap τ) (devices : Devices τ σ) (address : UInt16) (data : UInt8) :
    EStateM BusError σ Unit :=
  match m.route address with
  | .ok owner => devices.write owner address data
  | .error e => throw e

end AddressMap
end NesConsole
