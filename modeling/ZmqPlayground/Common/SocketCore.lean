import ZmqPlayground.Library.Table

/-! The descriptors of a process, as far as its sockets depend on them.

The kernel hands out numbers that are not open at the moment and may reuse them.
Connections are counted as they are accepted, so that two connections which had
the same number at different times can be told apart.
-/

set_option autoImplicit false

namespace ZmqPlayground

open Library

abbrev SOCKET := Int

abbrev Byte := UInt8

def invalidSocket : SOCKET := -1

/-- What a descriptor refers to: `other` is all that belongs to the rest of the process. -/
inductive Object where
  | listener
  | connection (id : ℕ)
  | other
  deriving DecidableEq

theorem Object.listener_plain (id : ℕ) : Object.listener ≠ .connection id := by simp

theorem Object.other_plain (id : ℕ) : Object.other ≠ .connection id := by simp

/-- A connection is open under one descriptor at most, and has been counted. -/
structure Kernel where
  objects : Table SOCKET Object
  connections : ℕ
  counted : ∀ fd id, objects.lookup fd = some (.connection id) → id < connections
  unique : ∀ fd other id, objects.lookup fd = some (.connection id) →
    objects.lookup other = some (.connection id) → fd = other
  deriving DecidableEq

namespace Kernel

def object (kernel : Kernel) (fd : SOCKET) : Option Object := kernel.objects.lookup fd

def IsOpen (kernel : Kernel) (fd : SOCKET) : Prop := (kernel.object fd).isSome

instance (kernel : Kernel) (fd : SOCKET) : Decidable (kernel.IsOpen fd) :=
  inferInstanceAs (Decidable (_ = true))

def opens (kernel : Kernel) (fd : SOCKET) (object : Object) (plain : ∀ id, object ≠ .connection id) :
    Kernel where
  objects := kernel.objects.insert fd object
  connections := kernel.connections
  counted other id found := by
    rw [Table.lookup_insert] at found
    split at found
    · exact absurd (Option.some.inj found) (plain id)
    · exact kernel.counted other id found
  unique first second id found found' := by
    rw [Table.lookup_insert] at found found'
    split at found
    · exact absurd (Option.some.inj found) (plain id)
    · split at found'
      · exact absurd (Option.some.inj found') (plain id)
      · exact kernel.unique first second id found found'

/-- `Socket`: the new descriptor is the one a server listens on. -/
def socket (kernel : Kernel) (fd : SOCKET) : Kernel :=
  kernel.opens fd .listener Object.listener_plain

/-- `Accept`: the connection gets the next number of the count. -/
def accept (kernel : Kernel) (fd : SOCKET) : Kernel where
  objects := kernel.objects.insert fd (.connection kernel.connections)
  connections := kernel.connections + 1
  counted other id found := by
    rw [Table.lookup_insert] at found
    split at found
    · cases found
      omega
    · have before := kernel.counted other id found
      omega
  unique first second id found found' := by
    rw [Table.lookup_insert] at found found'
    split at found <;> split at found'
    · simp_all
    · cases found
      exact absurd (kernel.counted second _ found') (by omega)
    · cases found'
      exact absurd (kernel.counted first _ found) (by omega)
    · exact kernel.unique first second id found found'

/-- The process before it has a server: the given descriptors belong to something else. -/
def initial (descriptors : List SOCKET) : Kernel :=
  descriptors.foldl (fun kernel fd => kernel.opens fd .other Object.other_plain) ⟨∅, 0, by simp, by simp⟩

def close (kernel : Kernel) (fd : SOCKET) : Kernel where
  objects := kernel.objects.erase fd
  connections := kernel.connections
  counted other id found := by
    rw [Table.lookup_erase] at found
    split at found
    · cases found
    · exact kernel.counted other id found
  unique first second id found found' := by
    rw [Table.lookup_erase] at found found'
    split at found
    · cases found
    · split at found'
      · cases found'
      · exact kernel.unique first second id found found'

@[simp] theorem object_opens (kernel : Kernel) (fd other : SOCKET) (object : Object)
    (plain : ∀ id, object ≠ .connection id) :
    (kernel.opens fd object plain).object other = if other = fd then some object else kernel.object other :=
  Table.lookup_insert _ _ _ _

@[simp] theorem object_socket (kernel : Kernel) (fd other : SOCKET) :
    (kernel.socket fd).object other = if other = fd then some .listener else kernel.object other :=
  Table.lookup_insert _ _ _ _

@[simp] theorem object_accept (kernel : Kernel) (fd other : SOCKET) :
    (kernel.accept fd).object other =
      if other = fd then some (.connection kernel.connections) else kernel.object other :=
  Table.lookup_insert _ _ _ _

@[simp] theorem object_close (kernel : Kernel) (fd other : SOCKET) :
    (kernel.close fd).object other = if other = fd then none else kernel.object other :=
  Table.lookup_erase _ _ _

@[simp] theorem connections_initial (descriptors : List SOCKET) :
    (initial descriptors).connections = 0 := by
  suffices kept : ∀ kernel : Kernel, (descriptors.foldl
      (fun kernel fd => kernel.opens fd .other Object.other_plain) kernel).connections = kernel.connections from
    kept _
  induction descriptors with
  | nil => exact fun _ => rfl
  | cons fd descriptors ih => exact fun kernel => ih _

theorem initial_unconnected (descriptors : List SOCKET) (fd : SOCKET) (id : ℕ) :
    (initial descriptors).object fd ≠ some (.connection id) := by
  intro found
  have counted := (initial descriptors).counted fd id found
  simp at counted

theorem not_open {kernel : Kernel} {fd : SOCKET} (closed : ¬ kernel.IsOpen fd) :
    kernel.object fd = none := by
  simpa [IsOpen] using closed

theorem object_accept_of_open {kernel : Kernel} {clientfd fd : SOCKET} {object : Object}
    (unused : ¬ kernel.IsOpen clientfd) (found : kernel.object fd = some object) :
    (kernel.accept clientfd).object fd = some object := by
  have different : fd ≠ clientfd := by
    rintro rfl
    rw [not_open unused] at found
    cases found
  simpa [different] using found

/-- Between the two states only descriptors have changed that are neither listening sockets nor
connections. -/
structure Others (before after : Kernel) : Prop where
  counted : after.connections = before.connections
  objects : ∀ fd, after.object fd = before.object fd ∨
    before.object fd ≠ some .listener ∧ (∀ id, before.object fd ≠ some (.connection id)) ∧
      ∀ id, after.object fd ≠ some (.connection id)

theorem Others.refl (kernel : Kernel) : kernel.Others kernel := ⟨rfl, fun _ => .inl rfl⟩

theorem Others.socket {kernel : Kernel} {fd : SOCKET} (closed : kernel.object fd = none) :
    kernel.Others (kernel.socket fd) := by
  refine ⟨rfl, fun other => ?_⟩
  by_cases same : other = fd
  · exact .inr (by simp [same, closed])
  · exact .inl (by simp [same])

theorem Others.opens {kernel : Kernel} {fd : SOCKET} (closed : kernel.object fd = none) :
    kernel.Others (kernel.opens fd .other Object.other_plain) := by
  refine ⟨rfl, fun other => ?_⟩
  by_cases same : other = fd
  · exact .inr (by simp [same, closed])
  · exact .inl (by simp [same])

theorem Others.closes {kernel : Kernel} {fd : SOCKET} (belongs : kernel.object fd = some .other) :
    kernel.Others (kernel.close fd) := by
  refine ⟨rfl, fun other => ?_⟩
  by_cases same : other = fd
  · exact .inr (by simp [same, belongs])
  · exact .inl (by simp [same])

theorem Others.listener {before after : Kernel} (others : before.Others after) {fd : SOCKET}
    (listens : before.object fd = some .listener) : after.object fd = some .listener := by
  rcases others.objects fd with same | ⟨foreign, -, -⟩
  · rw [same, listens]
  · exact absurd listens foreign

theorem Others.connection_iff {before after : Kernel} (others : before.Others after) (fd : SOCKET)
    (id : ℕ) : after.object fd = some (.connection id) ↔ before.object fd = some (.connection id) := by
  rcases others.objects fd with same | ⟨-, was, is⟩
  · rw [same]
  · exact iff_of_false (is id) (was id)

theorem Others.unconnected {before after : Kernel} (others : before.Others after)
    (none : ∀ fd id, before.object fd ≠ some (.connection id)) (fd : SOCKET) (id : ℕ) :
    after.object fd ≠ some (.connection id) :=
  mt (others.connection_iff fd id).mp (none fd id)

/-- The connection is not open under the descriptor, and as it has been counted it will not be. -/
def Gone (kernel : Kernel) (fd : SOCKET) (id : ℕ) : Prop :=
  kernel.object fd ≠ some (.connection id) ∧ id < kernel.connections

/-- The count goes on, and the connections that are gone stay gone. -/
structure Later (before after : Kernel) : Prop where
  counts : before.connections ≤ after.connections
  gone : ∀ {fd id}, before.Gone fd id → after.Gone fd id

theorem Later.refl (kernel : Kernel) : kernel.Later kernel := ⟨le_refl _, fun gone => gone⟩

theorem Later.trans {first second third : Kernel} (before : first.Later second)
    (after : second.Later third) : first.Later third :=
  ⟨before.counts.trans after.counts, fun gone => after.gone (before.gone gone)⟩

theorem Later.close (kernel : Kernel) (other : SOCKET) : kernel.Later (kernel.close other) := by
  refine ⟨le_refl _, fun {fd id} gone => ⟨?_, gone.2⟩⟩
  rw [object_close]
  split
  · simp
  · exact gone.1

theorem Later.accept (kernel : Kernel) (other : SOCKET) : kernel.Later (kernel.accept other) := by
  refine ⟨Nat.le_succ _, fun {fd id} gone => ⟨?_, gone.2.trans (Nat.lt_succ_self _)⟩⟩
  rw [object_accept]
  split
  · intro same
    cases same
    exact absurd gone.2 (lt_irrefl _)
  · exact gone.1

theorem Later.others {before after : Kernel} (others : before.Others after) : before.Later after :=
  ⟨others.counted.ge, fun {fd id} gone =>
    ⟨mt (others.connection_iff fd id).mp gone.1, others.counted ▸ gone.2⟩⟩

end Kernel

end ZmqPlayground
