import Playbook.Thread

/-! # Fresh ids

Names for new threads in the form of random UUIDs, drawn from one random seed. The 122 bits that such a name
is free to choose are written around its version and its variant.
-/

namespace Playbook

/-- Some hexadecimal digits of a number, the last ones. -/
def hexDigits (count n : Nat) : List Char :=
  (List.range count).reverse.map (fun k => Nat.digitChar (n / Nat.pow 16 k % 16))

/-- The UUID of version 4 that holds 122 bits. -/
def ThreadId.ofBits (bits : Nat) : ThreadId :=
  let group (count n : Nat) := String.ofList (hexDigits count n)
  Text.join "-"
    [group 8 (bits >>> 90), group 4 (bits >>> 74), "4" ++ group 3 (bits >>> 62),
      group 4 (0x8000 + (bits >>> 48) % 0x4000), group 12 bits]

/-- The ids that a seed leads to. The step between them is odd, so that no two of the first `2 ^ 122` are
equal, and large, so that their beginnings differ. -/
def ThreadId.stream (seed n : Nat) : ThreadId :=
  .ofBits ((seed + n * 0x9e3779b97f4a7c15f39cc0605cedc83) % (1 <<< 122))

end Playbook
