import Mathlib.Data.Multiset.AddSub
import Mathlib.Data.Multiset.MapFold
import Mathlib.Data.Multiset.UnionInter

/-!
# Leases

A queue whose values are leased to workers: a lease has a token of its own, and ends when it is settled,
when it expires and its value goes back, or when it is stranded: taken away from the lease, and not given
back.

* `Ledger`: the values, with every lease there was.
* `Conserved`: the invariant. Every value that was offered is ready, leased, settled or stranded, and no two
  leases have the same token.
* `Conserved.offer`, `Conserved.lease`, `Conserved.settle`, `Conserved.expire`, `Conserved.strand`: the
  operations keep it.
-/

namespace Lease

variable {τ α : Type}

structure Ledger (τ α : Type) where
  offered : Multiset α
  ready : Multiset α
  leased : Multiset (τ × α)
  settled : Multiset (τ × α)
  /-- The leases whose value went back. -/
  expired : Multiset (τ × α)
  stranded : Multiset (τ × α)

namespace Ledger

variable (g : Ledger τ α)

def empty : Ledger τ α := ⟨0, 0, 0, 0, 0, 0⟩

/-- Every lease there was. -/
def leases : Multiset (τ × α) := g.leased + g.settled + g.expired + g.stranded

def offer (x : α) : Ledger τ α := { g with offered := x ::ₘ g.offered, ready := x ::ₘ g.ready }

variable [DecidableEq τ] [DecidableEq α]

def lease (t : τ) (x : α) : Ledger τ α := { g with ready := g.ready.erase x, leased := (t, x) ::ₘ g.leased }

def settle (l : τ × α) : Ledger τ α := { g with leased := g.leased.erase l, settled := l ::ₘ g.settled }

def expire (l : τ × α) : Ledger τ α :=
  { g with leased := g.leased.erase l, ready := l.2 ::ₘ g.ready, expired := l ::ₘ g.expired }

def strand (l : τ × α) : Ledger τ α := { g with leased := g.leased.erase l, stranded := l ::ₘ g.stranded }

/-! A lease that ends is still a lease there was. -/

variable {g : Ledger τ α} {l : τ × α} (hl : l ∈ g.leased)

include hl

theorem leases_settle : (g.settle l).leases = g.leases := by
  obtain ⟨rest, hrest⟩ := Multiset.exists_cons_of_mem hl
  simp only [leases, settle, hrest, Multiset.erase_cons_head, Multiset.cons_add, Multiset.add_cons]

theorem leases_expire : (g.expire l).leases = g.leases := by
  obtain ⟨rest, hrest⟩ := Multiset.exists_cons_of_mem hl
  simp only [leases, expire, hrest, Multiset.erase_cons_head, Multiset.cons_add, Multiset.add_cons]

theorem leases_strand : (g.strand l).leases = g.leases := by
  obtain ⟨rest, hrest⟩ := Multiset.exists_cons_of_mem hl
  simp only [leases, strand, hrest, Multiset.erase_cons_head, Multiset.cons_add, Multiset.add_cons]

end Ledger

/-- Every value is somewhere, and a token is that of one lease. -/
structure Conserved (g : Ledger τ α) : Prop where
  values : g.offered = g.ready + (g.leased + g.settled + g.stranded).map Prod.snd
  tokens : (g.leases.map Prod.fst).Nodup

namespace Conserved

variable {g : Ledger τ α} {t : τ} {x : α} {l : τ × α}

theorem empty : Conserved (Ledger.empty : Ledger τ α) := ⟨rfl, Multiset.nodup_zero⟩

theorem offer (h : Conserved g) (x : α) : Conserved (g.offer x) := by
  refine ⟨?_, h.tokens⟩
  simp only [Ledger.offer, h.values, Multiset.cons_add]

/-- A settled lease is settled once. -/
theorem nodup_settled (h : Conserved g) : (g.settled.map Prod.fst).Nodup := by
  have ht := h.tokens
  unfold Ledger.leases at ht
  rw [Multiset.map_add, Multiset.map_add, Multiset.map_add] at ht
  exact (Multiset.nodup_add.mp (Multiset.nodup_add.mp (Multiset.nodup_add.mp ht).1).1).2.1

/-- A token in use is that of one lease. -/
theorem nodup_leased (h : Conserved g) : (g.leased.map Prod.fst).Nodup := by
  have ht := h.tokens
  unfold Ledger.leases at ht
  rw [Multiset.map_add, Multiset.map_add, Multiset.map_add] at ht
  exact (Multiset.nodup_add.mp (Multiset.nodup_add.mp (Multiset.nodup_add.mp ht).1).1).1

variable [DecidableEq τ] [DecidableEq α]

omit [DecidableEq τ] in
theorem lease (h : Conserved g) (hx : x ∈ g.ready) (ht : t ∉ g.leases.map Prod.fst) : Conserved (g.lease t x) := by
  refine ⟨?_, ?_⟩
  · obtain ⟨rest, hrest⟩ := Multiset.exists_cons_of_mem hx
    have hv := h.values
    simp only [Ledger.lease, hrest, Multiset.erase_cons_head, Multiset.cons_add, Multiset.map_cons, Multiset.add_cons] at hv ⊢
    exact hv
  · have hleases : (g.lease t x).leases = (t, x) ::ₘ g.leases := by
      simp only [Ledger.leases, Ledger.lease, Multiset.cons_add]
    rw [hleases, Multiset.map_cons]
    exact Multiset.nodup_cons.mpr ⟨ht, h.tokens⟩

theorem settle (h : Conserved g) (hl : l ∈ g.leased) : Conserved (g.settle l) := by
  refine ⟨?_, (Ledger.leases_settle hl).symm ▸ h.tokens⟩
  obtain ⟨rest, hrest⟩ := Multiset.exists_cons_of_mem hl
  have hv := h.values
  simp only [hrest, Multiset.cons_add, Multiset.map_cons, Multiset.add_cons] at hv
  simp only [Ledger.settle, hrest, Multiset.erase_cons_head, Multiset.cons_add, Multiset.map_cons, Multiset.add_cons]
  exact hv

theorem expire (h : Conserved g) (hl : l ∈ g.leased) : Conserved (g.expire l) := by
  refine ⟨?_, (Ledger.leases_expire hl).symm ▸ h.tokens⟩
  obtain ⟨rest, hrest⟩ := Multiset.exists_cons_of_mem hl
  have hv := h.values
  simp only [hrest, Multiset.cons_add, Multiset.map_cons, Multiset.add_cons] at hv
  simp only [Ledger.expire, hrest, Multiset.erase_cons_head, Multiset.cons_add]
  exact hv

theorem strand (h : Conserved g) (hl : l ∈ g.leased) : Conserved (g.strand l) := by
  refine ⟨?_, (Ledger.leases_strand hl).symm ▸ h.tokens⟩
  obtain ⟨rest, hrest⟩ := Multiset.exists_cons_of_mem hl
  have hv := h.values
  simp only [hrest, Multiset.cons_add, Multiset.map_cons, Multiset.add_cons] at hv
  simp only [Ledger.strand, hrest, Multiset.erase_cons_head, Multiset.map_cons, Multiset.add_cons]
  exact hv

end Conserved

end Lease
