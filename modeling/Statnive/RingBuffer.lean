import Mathlib.Data.List.Rotate
import Mathlib.Tactic.Common

/-!
# Ring buffers

A list of fixed length takes the values one after another, each at the position that its
number leaves modulo the length. What it holds then are the latest values.
-/

namespace Statnive.RingBuffer

variable {α : Type*} {ring vs : List α}

/-- The last `cap` values. -/
def latest (cap : ℕ) (vs : List α) : List α := vs.drop (vs.length - cap)

/-- Value number `written` comes in. -/
def push (ring : List α) (written : ℕ) (v : α) : List α := ring.set (written % ring.length) v

@[simp] theorem length_push (ring : List α) (written : ℕ) (v : α) :
    (push ring written v).length = ring.length := by simp [push]

theorem length_latest (cap : ℕ) (vs : List α) :
    (latest cap vs).length = min vs.length cap := by
  simp only [latest, List.length_drop]
  omega

/-- Each of the latest values is at its position. -/
def Holds (ring vs : List α) : Prop :=
  ∀ i < vs.length, vs.length ≤ i + ring.length → ring[i % ring.length]? = vs[i]?

theorem holds_nil (ring : List α) : Holds ring [] := fun i hi => absurd hi (Nat.not_lt_zero i)

theorem Holds.push (h : Holds ring vs) (hpos : 0 < ring.length) (v : α) :
    Holds (push ring vs.length v) (vs ++ [v]) := by
  intro i hi hlate
  simp only [List.length_append, List.length_singleton, length_push] at hi hlate ⊢
  have hpos' := Nat.mod_lt vs.length hpos
  rcases Nat.lt_succ_iff_lt_or_eq.mp hi with hi | rfl
  · -- the new value stands elsewhere, for fewer than a whole turn lie between the two
    have hne : vs.length % ring.length ≠ i % ring.length := by
      intro heq
      have hdvd : ring.length ∣ vs.length - i :=
        Nat.dvd_of_mod_eq_zero (Nat.sub_mod_eq_zero_of_mod_eq heq)
      have hle := Nat.le_of_dvd (by omega) hdvd
      omega
    rw [RingBuffer.push, List.getElem?_set_ne hne, h i hi (by omega),
      List.getElem?_append_left hi]
  · simp [RingBuffer.push, hpos']

/-- Behind a number of whole turns the front of the ring are the latest values. -/
theorem Holds.take (h : Holds ring vs) {n : ℕ} (hn : n ≤ vs.length) (hlt : n < ring.length)
    (hturn : (vs.length - n) % ring.length = 0) : ring.take n = latest n vs := by
  refine List.ext_getElem? fun i => ?_
  rw [latest, List.getElem?_drop]
  rcases Nat.lt_or_ge i n with hi | hi
  · have hat := h (vs.length - n + i) (by omega) (by omega)
    have hmod : (vs.length - n + i) % ring.length = i := by
      rw [Nat.add_mod, hturn, Nat.zero_add, Nat.mod_mod, Nat.mod_eq_of_lt (hi.trans hlt)]
    rw [List.getElem?_take_of_lt hi, ← hat, hmod]
  · rw [List.getElem?_eq_none_iff.mpr ((List.length_take_le n ring).trans hi),
      List.getElem?_eq_none_iff.mpr (by omega)]

/-- What has been written are the latest values, in another order. -/
theorem Holds.perm (h : Holds ring vs) :
    (ring.take (min vs.length ring.length)).Perm (latest ring.length vs) := by
  rcases Nat.lt_or_ge vs.length ring.length with hlt | hle
  · have htake := h.take (le_refl _) hlt (by simp)
    have hlatest : latest ring.length vs = latest vs.length vs := by
      rw [latest, latest, Nat.sub_eq_zero_of_le hlt.le, Nat.sub_self]
    rw [Nat.min_eq_left hlt.le, htake, hlatest]
  · have hrotate : ring.rotate (vs.length % ring.length) = latest ring.length vs := by
      refine List.ext_getElem ?_ fun i hi hi' => ?_
      · rw [List.length_rotate, length_latest, Nat.min_eq_right hle]
      · rw [List.length_rotate] at hi
        have hindex : vs.length - ring.length + i < vs.length := by omega
        have hat := h _ hindex (by omega)
        have hmod : (vs.length - ring.length + i) % ring.length =
            (i + vs.length % ring.length) % ring.length := by
          have hturn : vs.length = vs.length - ring.length + ring.length := by omega
          conv_rhs => rw [hturn, Nat.add_mod_right, Nat.add_mod_mod, Nat.add_comm]
        have hbound := Nat.mod_lt (i + vs.length % ring.length) (by omega : 0 < ring.length)
        rw [hmod, List.getElem?_eq_getElem hbound, List.getElem?_eq_getElem hindex] at hat
        simpa only [latest, List.getElem_rotate, List.getElem_drop] using Option.some.inj hat
    rw [Nat.min_eq_right hle, List.take_length, ← hrotate]
    exact (List.rotate_perm ring _).symm

end Statnive.RingBuffer
