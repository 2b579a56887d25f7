import PyCoyote.Library.RemoteCopy
import Mathlib.Data.Int.Notation
import Mathlib.Logic.Relation
import Mathlib.Algebra.Order.Group.Nat

/-!
# Two parties with RDMA

What the two scripts of the RDMA benchmark do to each other: each has a buffer
and a counter of the copies stored into it, launches copies into either buffer,
waits for its counter, and meets the other party. Copies go on between any two
commands.
-/

namespace PyCoyote.Rdma

open Library.RemoteCopy

/-- The parties, by the value that they give to `conn_sync`. -/
inductive Side where
  | client
  | server
deriving DecidableEq

/-- The other party. -/
def Side.peer : Side → Side
  | .client => .server
  | .server => .client

theorem Side.peer_ne (p : Side) : p.peer ≠ p := by cases p <;> decide

@[simp] theorem Side.peer_peer (p : Side) : p.peer.peer = p := by cases p <;> rfl

theorem Side.eq_or_eq_peer (q p : Side) : q = p ∨ q = p.peer := by
  cases p <;> cases q <;> simp [peer]

/-- Changing one party's part leaves the other's. -/
theorem update_peer {β : Type*} (f : Side → β) (p : Side) (v : β) :
    Function.update f p v p.peer = f p.peer := Function.update_of_ne p.peer_ne v f

/-- What a statement of a party does. `launch q size` starts a copy into the
buffer of `q` from the one of its peer; `sync` waits for the other party's. -/
inductive Cmd where
  | set (i : ℕ) (v : ℤ)
  | check (i : ℕ) (v : ℤ)
  | clear
  | launch (q : Side) (size : ℕ)
  | poll (n : ℕ)
  | sync

/-- What is left of each party's commands, the buffers, and whether a check failed. -/
structure Config where
  code : Side → List Cmd
  node : Side → Node ℤ
  failed : Bool

/-- A counter as the 32-bit number that is read. -/
def word (n : ℕ) : ℕ := (UInt32.ofNat n).toNat

theorem word_of_lt {n : ℕ} (h : n < 2 ^ 32) : word n = n := by
  rw [word, UInt32.toNat_ofNat']
  exact Nat.mod_eq_of_lt h

/-- One command of a party, a meeting, or a step of a copy. -/
inductive Turn (c : Config) : Config → Prop
  | set {p : Side} {i : ℕ} {v : ℤ} {rest : List Cmd} (h : c.code p = .set i v :: rest) :
      Turn c { c with
        code := Function.update c.code p rest
        node := Function.update c.node p ((c.node p).set i v) }
  | pass {p : Side} {i : ℕ} {v : ℤ} {rest : List Cmd} (h : c.code p = .check i v :: rest)
      (hv : (c.node p).mem i = v) : Turn c { c with code := Function.update c.code p rest }
  | fail {p : Side} {i : ℕ} {v : ℤ} {rest : List Cmd} (h : c.code p = .check i v :: rest)
      (hv : (c.node p).mem i ≠ v) :
      Turn c { c with code := Function.update c.code p [], failed := true }
  | clear {p : Side} {rest : List Cmd} (h : c.code p = .clear :: rest) :
      Turn c { c with
        code := Function.update c.code p rest
        node := Function.update c.node p (c.node p).clear }
  | launch {p q : Side} {size : ℕ} {rest : List Cmd} (h : c.code p = .launch q size :: rest) :
      Turn c { c with
        code := Function.update c.code p rest
        node := Function.update c.node q ((c.node q).launch size) }
  | found {p : Side} {n : ℕ} {rest : List Cmd} (h : c.code p = .poll n :: rest)
      (hn : word (c.node p).count = n) :
      Turn c { c with code := Function.update c.code p rest }
  | again {p : Side} {n : ℕ} {rest : List Cmd} (h : c.code p = .poll n :: rest)
      (hn : word (c.node p).count ≠ n) : Turn c c
  | sync {rest : Side → List Cmd} (h : ∀ p, c.code p = .sync :: rest p) :
      Turn c { c with code := rest }
  | copy {p : Side} {node : Node ℤ} (h : Moves (c.node p.peer).mem (c.node p) node) :
      Turn c { c with node := Function.update c.node p node }

/-- The steps that a command makes possible at most. -/
def Cmd.work : Cmd → ℕ
  | .launch _ size => 2 * size + 2
  | _ => 1

def codeWork : List Cmd → ℕ
  | [] => 0
  | cmd :: rest => cmd.work + codeWork rest

/-- The steps that are left at most, without the rounds of waiting loops. -/
def Config.work (c : Config) : ℕ :=
  codeWork (c.code .client) + codeWork (c.code .server) +
    (Library.RemoteCopy.work (c.node .client).flight +
      Library.RemoteCopy.work (c.node .server).flight)

/-- The work in the order of one party and its peer. -/
theorem Config.work_eq (c : Config) (p : Side) : c.work =
    codeWork (c.code p) + codeWork (c.code p.peer) +
      (Library.RemoteCopy.work (c.node p).flight +
        Library.RemoteCopy.work (c.node p.peer).flight) := by
  cases p with
  | client => rfl
  | server =>
      simp only [Config.work, Side.peer]
      omega

/-- A waiting loop goes round, or less is left to do. -/
theorem Turn.work_lt {c c' : Config} (h : Turn c c') : c' = c ∨ c'.work < c.work := by
  cases h with
  | again => exact .inl rfl
  | @set p _ _ _ h | @clear p _ h =>
      right
      simp only [Config.work_eq _ p, h, codeWork, Cmd.work, Function.update_self, update_peer,
        Node.set_flight, Node.clear_flight]
      omega
  | @pass p _ _ _ h | @fail p _ _ _ h | @found p _ _ h =>
      right
      simp only [Config.work_eq _ p, h, codeWork, Cmd.work, Function.update_self, update_peer]
      omega
  | @launch p q size rest h =>
      right
      have hlaunch := work_launch (c.node q) size
      have hcode : codeWork (c.code p) = 2 * size + 2 + codeWork rest := by
        rw [h, codeWork, Cmd.work]
      obtain rfl | rfl := q.eq_or_eq_peer p
      · simp only [Config.work_eq _ q, hcode, Function.update_self, update_peer, hlaunch]
        omega
      · have hpeer : Function.update c.node p.peer ((c.node p.peer).launch size) p = c.node p :=
          Function.update_of_ne p.peer_ne.symm _ _
        simp only [Config.work_eq _ p, hcode, Function.update_self, update_peer, hpeer, hlaunch]
        omega
  | sync h =>
      right
      simp only [Config.work, h, codeWork, Cmd.work]
      omega
  | @copy p node h =>
      right
      have := h.work_lt
      simp only [Config.work_eq _ p, Function.update_self, update_peer]
      omega

end PyCoyote.Rdma
