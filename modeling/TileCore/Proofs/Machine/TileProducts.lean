import TileCore.Proofs.Machine.Faults
import TileCore.Proofs.Machine.Frames

/-!
# What a tile product depends on

An element of a tile product is formed from one row of the first factor, one column of the second
and one element of the summand, and from nothing else. Patterns that are no number may take any form
on the way, so they are all identified: sums, products and conversions of what is no number are no
numbers either, whatever they are in detail. A step that forms a product reads its three tiles
before it writes the result, so the registers may coincide in any way.

## Main definitions

* `AgreeUpTo`: the same value, or two values of a kind that is identified.
* `Half.Agrees`, `Single.Agrees`: agreement of patterns up to what is no number.

## Main results

* `Single.Agrees.add`, `Single.Agrees.mul`, `Half.Agrees.toSingle`, `Single.Agrees.toHalf`:
  arithmetic respects agreement.
* `Tile.agrees_dot`, `Tile.agrees_entry_fma`: an element of a product.
* `Machine.step_of_gemm`: the whole of a step that forms a product.
* `tile_products_are_local`: what a product and its step depend on, and what they change.
-/

namespace TileCore

/-! ### Agreement -/

section Agreement

variable {α β γ : Type} {p : α → Prop} {q : β → Prop} {o : γ → Prop} {x x' : α} {y y' : β}

/-- The same value, or two values of a kind whose members are identified. -/
def AgreeUpTo (p : α → Prop) (x x' : α) : Prop := x = x' ∨ p x ∧ p x'

theorem AgreeUpTo.refl (x : α) : AgreeUpTo p x x := .inl rfl

/-- A function that keeps the kind respects agreement. -/
theorem AgreeUpTo.map {f : α → γ} (hf : ∀ x, p x → o (f x)) (hx : AgreeUpTo p x x') :
    AgreeUpTo o (f x) (f x') := by
  obtain rfl | ⟨hx, hx'⟩ := hx
  · exact .refl _
  · exact .inr ⟨hf x hx, hf x' hx'⟩

/-- So does an operation that gives a member of the kind as soon as one operand is such a one. -/
theorem AgreeUpTo.map₂ {f : α → β → γ} (hleft : ∀ x y, p x → o (f x y))
    (hright : ∀ x y, q y → o (f x y)) (hx : AgreeUpTo p x x') (hy : AgreeUpTo q y y') :
    AgreeUpTo o (f x y) (f x' y') := by
  obtain rfl | ⟨hx, hx'⟩ := hx
  · exact hy.map (hright x)
  · exact .inr ⟨hleft x y hx, hleft x' y' hx'⟩

end Agreement

/-! ### What is no number -/

namespace FloatingPoint.Datum

variable {d e : Datum}

theorem isNan_iff : d.isNan = true ↔ ∃ negative, d = .nan negative := by
  cases d <;> simp [isNan]

theorem isNan_add_left (h : d.isNan = true) : (d.add e).isNan = true := by
  obtain ⟨negative, rfl⟩ := isNan_iff.mp h
  rfl

theorem isNan_add_right (h : e.isNan = true) : (d.add e).isNan = true := by
  obtain ⟨negative, rfl⟩ := isNan_iff.mp h
  cases d <;> rfl

theorem isNan_mul_left (h : d.isNan = true) : (d.mul e).isNan = true := by
  obtain ⟨negative, rfl⟩ := isNan_iff.mp h
  rfl

theorem isNan_mul_right (h : e.isNan = true) : (d.mul e).isNan = true := by
  obtain ⟨negative, rfl⟩ := isNan_iff.mp h
  cases d <;> rfl

end FloatingPoint.Datum

open FloatingPoint

namespace Single

/-- The pattern is no number. -/
def isNan (x : Single) : Bool := (datum x).isNan

/-- The same pattern, or two that are no number. -/
def Agrees (x x' : Single) : Prop := AgreeUpTo (fun x => isNan x = true) x x'

theorem isNan_ofDatum {d : Datum} (h : d.isNan = true) : isNan (ofDatum d) = true := by
  obtain ⟨negative, rfl⟩ := Datum.isNan_iff.mp h
  cases negative <;> decide

theorem isNan_toHalf {x : Single} (h : isNan x = true) : Half.isNan (toHalf x) = true := by
  obtain ⟨negative, hdatum⟩ := Datum.isNan_iff.mp h
  rw [toHalf, hdatum]
  cases negative <;> decide

variable {x x' y y' : Single}

theorem Agrees.add (hx : Agrees x x') (hy : Agrees y y') : Agrees (add x y) (add x' y') :=
  AgreeUpTo.map₂ (fun _ _ h => isNan_ofDatum (Datum.isNan_add_left h))
    (fun _ _ h => isNan_ofDatum (Datum.isNan_add_right h)) hx hy

theorem Agrees.mul (hx : Agrees x x') (hy : Agrees y y') : Agrees (mul x y) (mul x' y') :=
  AgreeUpTo.map₂ (fun _ _ h => isNan_ofDatum (Datum.isNan_mul_left h))
    (fun _ _ h => isNan_ofDatum (Datum.isNan_mul_right h)) hx hy

end Single

/-- The same pattern, or two that are no number. -/
def Half.Agrees (x x' : Half) : Prop := AgreeUpTo (fun x => Half.isNan x = true) x x'

theorem Half.Agrees.toSingle {x x' : Half} (h : Half.Agrees x x') :
    Single.Agrees x.toSingle x'.toSingle :=
  AgreeUpTo.map (fun _ hx => Single.isNan_ofDatum hx) h

theorem Single.Agrees.toHalf {x x' : Single} (h : Single.Agrees x x') :
    Half.Agrees x.toHalf x'.toHalf :=
  AgreeUpTo.map (fun _ hx => Single.isNan_toHalf hx) h

/-! ### Elements of products -/

namespace Tile

variable {a a' b b' c c' : Tile} {i j : Fin 4}

/-- The sum over some columns of the first factor, begun with any number. -/
theorem agrees_sum {sum sum' : Single} (hrow : ∀ k, (a.entry i k).Agrees (a'.entry i k))
    (hcol : ∀ k, (b.entry k j).Agrees (b'.entry k j)) (ks : List (Fin 4))
    (hsum : Single.Agrees sum sum') :
    Single.Agrees
      (ks.foldl (fun sum k => sum.add ((a.entry i k).toSingle.mul (b.entry k j).toSingle)) sum)
      (ks.foldl (fun sum k => sum.add ((a'.entry i k).toSingle.mul (b'.entry k j).toSingle))
        sum') := by
  induction ks generalizing sum sum' with
  | nil => exact hsum
  | cons k ks ih => exact ih (hsum.add ((hrow k).toSingle.mul (hcol k).toSingle))

/-- A row and a column determine the sum of their products. -/
theorem agrees_dot (hrow : ∀ k, (a.entry i k).Agrees (a'.entry i k))
    (hcol : ∀ k, (b.entry k j).Agrees (b'.entry k j)) :
    Single.Agrees (dot a b i j) (dot a' b' i j) :=
  agrees_sum hrow hcol _ (.refl _)

/-- A row, a column and an element of the summand determine an element of the product. -/
theorem agrees_entry_fma (hrow : ∀ k, (a.entry i k).Agrees (a'.entry i k))
    (hcol : ∀ k, (b.entry k j).Agrees (b'.entry k j))
    (hsummand : (c.entry i j).Agrees (c'.entry i j)) :
    ((fma a b c).entry i j).Agrees ((fma a' b' c').entry i j) := by
  rw [fma, fma, entry_ofEntries, entry_ofEntries]
  exact ((agrees_dot hrow hcol).add hsummand.toSingle).toHalf

end Tile

/-! ### Steps -/

namespace Registers

variable {r r' : Registers} {i k : Nat} {t : Tile}

theorem tile_next (r : Registers) (k : Nat) : r.next.tile k = r.tile k := rfl

theorem scalars_next (r : Registers) : r.next.scalars = r.scalars := rfl

theorem tile_of_setTile (h : r.setTile i t = .ok r') : r'.tile i = .ok t := by
  obtain ⟨hi, rfl⟩ := setTile_eq_ok_iff.mp h
  rw [tile, dif_pos hi, Vector.getElem_set_self]

theorem tile_of_setTile_of_ne (h : r.setTile i t = .ok r') (hk : k ≠ i) :
    r'.tile k = r.tile k := by
  obtain ⟨hi, rfl⟩ := setTile_eq_ok_iff.mp h
  rw [tile, tile]
  split_ifs with hlt
  · rw [Vector.getElem_set_ne hi hlt hk.symm]
  · rfl

theorem scalars_of_setTile (h : r.setTile i t = .ok r') : r'.scalars = r.scalars := by
  obtain ⟨-, rfl⟩ := setTile_eq_ok_iff.mp h
  rfl

end Registers

/-- A step that forms a product gives it to its target, from the tiles in front of the step. -/
theorem Machine.step_of_gemm {r : Registers} {m : Memory} {w : Word} {rd ra rb rc : Nat}
    (hload : m.loadWord r.pc = .ok w) (hdecode : decode w = .ok (.gemm rd ra rb rc)) :
    ∃ a b c r', r.tile ra = .ok a ∧ r.tile rb = .ok b ∧ r.tile rc = .ok c ∧
      r.setTile rd (Tile.fma a b c) = .ok r' ∧
        Machine.step ⟨r, m⟩ = (⟨r'.next, m⟩, .ok .running) := by
  obtain ⟨hrd, hra, hrb, hrc⟩ := fits_of_encode (Instruction.encode_eq_ok_iff.mpr hdecode)
  obtain ⟨a, ha⟩ := r.exists_tile_of_lt hra
  obtain ⟨b, hb⟩ := r.exists_tile_of_lt hrb
  obtain ⟨c, hc⟩ := r.exists_tile_of_lt hrc
  have hset := r.setTile_of_lt hrd (Tile.fma a b c)
  refine ⟨a, b, c, _, ha, hb, hc, hset, step_of_update hload hdecode ?_⟩
  rw [Instruction.effect, ha, Except.ok_bind, hb, Except.ok_bind, hc, Except.ok_bind, hset]
  rfl

/-- An element of a product depends on a row of the first factor, a column of the second and an
element of the summand only, where patterns that are no number count as the same. A step at a
product leaves it in its target, formed from the tiles in front of the step, whichever of the four
registers coincide, and leaves every other tile, every scalar register and the memory as they
are. -/
theorem tile_products_are_local :
    (∀ (a b c a' b' c' : Tile) (i j : Fin 4),
      (∀ k, (a.entry i k).Agrees (a'.entry i k)) → (∀ k, (b.entry k j).Agrees (b'.entry k j)) →
        (c.entry i j).Agrees (c'.entry i j) →
          ((Tile.fma a b c).entry i j).Agrees ((Tile.fma a' b' c').entry i j)) ∧
      ∀ (r : Registers) (m : Memory) (w : Word) (rd ra rb rc : Nat),
        m.loadWord r.pc = .ok w → decode w = .ok (.gemm rd ra rb rc) →
          ∃ a b c r', Machine.step ⟨r, m⟩ = (⟨r', m⟩, .ok .running) ∧
            r.tile ra = .ok a ∧ r.tile rb = .ok b ∧ r.tile rc = .ok c ∧
            r'.tile rd = .ok (Tile.fma a b c) ∧ (∀ k, k ≠ rd → r'.tile k = r.tile k) ∧
            r'.scalars = r.scalars ∧ r'.pc = r.nextAddress := by
  refine ⟨fun a b c a' b' c' i j => Tile.agrees_entry_fma, ?_⟩
  intro r m w rd ra rb rc hload hdecode
  obtain ⟨a, b, c, r', ha, hb, hc, hset, hstep⟩ := Machine.step_of_gemm hload hdecode
  have htarget := (r'.tile_next rd).trans (Registers.tile_of_setTile hset)
  have hothers : ∀ k, k ≠ rd → r'.next.tile k = r.tile k := fun k hk =>
    (r'.tile_next k).trans (Registers.tile_of_setTile_of_ne hset hk)
  have hscalars := r'.scalars_next.trans (Registers.scalars_of_setTile hset)
  exact ⟨a, b, c, r'.next, hstep, ha, hb, hc, htarget, hothers, hscalars,
    Registers.pc_next_of_setTile hset⟩

/-- A machine with a product of a tile register with itself, added to itself, in front of it. -/
def squaring : Machine where
  registers :=
    { Registers.cleared with tiles := Registers.cleared.tiles.set 3 Tile.identity }
  memory := Memory.ofImage (Word.toBytes 0x33330077) 4

/-- A tile whose second row is no number, and which is the same number elsewhere. -/
def undefinedRow (x undefined : Half) : Tile :=
  Tile.ofEntries fun i _ => if i = 1 then undefined else x

/-- Two tiles agree in a row of what is no number, and so does the row of their products. With one
register in all four places the product is formed from what it held. -/
theorem tile_products_are_local_of_square :
    ((Tile.fma (undefinedRow 0 0x7E00) .identity .zero).entry 1 2).Agrees
        ((Tile.fma (undefinedRow Half.one 0xFFFF) .identity .zero).entry 1 2) ∧
      ∃ r', squaring.step = (⟨r', squaring.memory⟩, .ok .running) ∧
        r'.tile 3 = .ok (Tile.fma .identity .identity .identity) ∧
        r'.tile 4 = .ok Tile.zero := by
  obtain ⟨hentry, hstep⟩ := tile_products_are_local
  refine ⟨hentry _ _ _ _ _ _ 1 2 (fun k => ?_) (fun _ => .refl _) (.refl _), ?_⟩
  · rw [undefinedRow, undefinedRow, Tile.entry_ofEntries, Tile.entry_ofEntries]
    exact .inr ⟨by decide, by decide⟩
  obtain ⟨a, b, c, r', hrunning, ha, hb, hc, htarget, hothers, -, -⟩ :=
    hstep squaring.registers squaring.memory 0x33330077 3 3 3 3 rfl rfl
  have hheld : squaring.registers.tile 3 = .ok Tile.identity := rfl
  cases hheld.symm.trans ha
  cases hheld.symm.trans hb
  cases hheld.symm.trans hc
  exact ⟨r', hrunning, htarget, hothers 4 (by decide)⟩

end TileCore
