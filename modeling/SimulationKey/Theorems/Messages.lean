import SimulationKey.Backend.Runs
import SimulationKey.Core.Event
import SimulationKey.Kit.Decimal
import SimulationKey.Worker.Heartbeat

/-!
# What is published is what is handled

The API and the worker share no type, only the bytes of a message. The worker reads
from every event the data that was published with it (`decode_encode`), and so handles
the message of a simulation as that simulation (`published_handled`).
-/

namespace SimulationKey.Theorems.Messages

open Kit Kit.Json Kit.Text

variable {F B L : Type}

/-- The worker reads the data that the API wrote. -/
theorem decode_encode (e : Event) (h : LegalMembers e.data) :
    decodeEvent e.encode = some (.obj e.data) := by
  rw [decodeEvent, loads_encode e h]
  rfl

/-- The numbers whose text `int` takes. -/
def Readable (n : Nat) : Prop := (Nat.toDigits 10 n).length ≤ maxStrDigits

theorem pyInt_id {id : Nat} (h : Readable id) :
    pyInt (String.ofList (toString (id : Int)).toList) = some (id : Int) := by
  have htext : toString (id : Int) = toString id := rfl
  rw [String.ofList_toList, htext, pyInt_toString h]

theorem incomingOf_requested {id : Nat} (h : Readable id) :
    incomingOf (simulationRequested id).encode = .simulation id := by
  have hlegal : LegalMembers (simulationRequested id).data :=
    ⟨scalars_points _, isNumeral_int id, trivial⟩
  have hmember : lastMember (simulationRequested id).data "simulation_id" =
      some (.num (toString (id : Int)).toList) := by
    simp only [simulationRequested, lastMember, List.reverse_singleton, decide_true,
      List.find?_cons_of_pos, Option.map_some]
  have hid : simulationIdOf (.obj (simulationRequested id).data) = some (id : Int) := by
    simp only [simulationIdOf, hmember, pyInt_id h]
  rw [incomingOf, decode_encode _ hlegal]
  simp only [hid]

/-- The delivery of a simulation's message is that simulation's, kept alive from its start;
no other simulation has the same message. -/
theorem published_handled [PyFloat F] (lib : Libraries F B L) {id : Nat}
    (h : Readable id) (delivered : Option Nat) :
    startDelivery lib (simulationRequested id).encode delivered =
      { handler := .ready (handleMessage lib id delivered)
        heartbeat := .sleeping false
        sent := []
        answered := [] } ∧
    ∀ other, Readable other →
      (simulationRequested other).encode = (simulationRequested id).encode → other = id := by
  have hincoming := incomingOf_requested h
  constructor
  · simp only [startDelivery, handleDelivery, hincoming, Int.toNat_natCast]
  · intro other hother hsame
    have hread := incomingOf_requested hother
    rw [hsame, hincoming] at hread
    injection hread with hid
    omega

theorem published_handled_seven :
    startDelivery smallLib (simulationRequested 7).encode (some 1) =
      { handler := .ready (handleMessage smallLib 7 (some 1))
        heartbeat := .sleeping false
        sent := []
        answered := [] } := by
  have hreadable : Readable 7 := by
    unfold Readable
    decide
  exact (published_handled smallLib hreadable (some 1)).1

end SimulationKey.Theorems.Messages
