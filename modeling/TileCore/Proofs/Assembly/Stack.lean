import TileCore.Proofs.Assembly.Checks
import TileCore.Proofs.Assembly.Shorthands
import TileCore.Proofs.Machine.Confinement
import TileCore.Proofs.Machine.Lifecycle

/-!
# Registers on the stack

A push moves the stack pointer down before it stores, and a pop loads before it moves the stack
pointer up again. Each of them takes two words. A row of pushes therefore leaves the registers one
below the other, and a row of pops in the opposite order finds each of them where the stack pointer
stands. What happens to these registers in between does not matter, since a pop replaces what it
finds; and a register that is pushed twice has been pushed with the same content both times.

## Main definitions

* `RowAt`: a row of statements that name one register each.
* `stackWrites`: what a row of pushes stores.
* `StackRoom`: the stack has room for some words.
* `Registers.AgreeBut`: registers agree but for some of them.

## Main results

* `after_pushes`: a row of pushes.
* `after_pops`: a row of pops.
* `pops_undo_pushes`: both of them, with anything done to the registers in between.
-/

namespace TileCore

open Text

/-- A row of statements with the same mnemonic and one register each, of two words each, from place
`k` of the code on. -/
def RowAt (source : Text) (k : Nat) (mnemonic : String) (rs : List Nat) : Prop :=
  ∀ i x, rs[i]? = some x →
    ∃ op, readRegister? op = some x ∧ StatementAt source (k + 2 * i) mnemonic [op]

theorem rowAt_nil (source : Text) (k : Nat) (mnemonic : String) : RowAt source k mnemonic [] :=
  fun _ _ hi => nomatch hi

theorem rowAt_cons_iff {source : Text} {k x : Nat} {mnemonic : String} {rs : List Nat} :
    RowAt source k mnemonic (x :: rs) ↔
      (∃ op, readRegister? op = some x ∧ StatementAt source k mnemonic [op]) ∧
        RowAt source (k + 2) mnemonic rs := by
  have hplace : ∀ i, k + 2 * (i + 1) = k + 2 + 2 * i := fun i => by omega
  constructor
  · intro h
    refine ⟨h 0 x rfl, fun i y hi => ?_⟩
    rw [← hplace]
    exact h (i + 1) y hi
  · rintro ⟨hhead, htail⟩ i y hi
    cases i with
    | zero =>
      cases hi
      exact hhead
    | succ i =>
      rw [hplace]
      exact htail i y hi

/-! ### The words of a push and of a pop -/

section Words

variable {source op : Text} {l : Layout} {p : Program} {k x : Nat}

theorem isOperand_stackTop (h : IsOperand op) : ∀ o ∈ [op, "0(sp)".toList], IsOperand o := by
  have haddr : IsOperand "0(sp)".toList := IsPlain.isOperand (by decide)
  exact List.forall_mem_cons.mpr ⟨h, List.forall_mem_singleton.mpr haddr⟩

theorem readInstruction_moveStack {labels : Labels} {pc : Word} {imm : Text} {z : Int}
    (himm : IsPlain imm) (hz : resolveImmediate labels imm = .ok z) (hfits : FitsSigned 12 z) :
    readInstruction labels pc (instructionText "addi" ["sp".toList, "sp".toList, imm]) =
      .ok (.aluImm .add stackRegister stackRegister z) := by
  have hsp : IsOperand "sp".toList := IsPlain.isOperand (by decide)
  exact readInstruction_addi hsp hsp himm.isOperand rfl rfl hz hfits

theorem resolveAddress_stackTop (labels : Labels) :
    resolveAddress labels "0(sp)".toList = .ok (0, stackRegister) :=
  rfl

theorem exists_words_of_push (h : Assembled source l p) (hat : StatementAt source k "push" [op])
    (hop : readRegister? op = some x) :
    ∃ w w', p.code[k]? = some w ∧ p.code[k + 1]? = some w' ∧
      decode w = .ok (.aluImm .add stackRegister stackRegister (-4)) ∧
      decode w' = .ok (.store stackRegister x 0) := by
  have hexpand : Shorthand.push.expand [op] =
      .ok [instructionText "addi" ["sp".toList, "sp".toList, "-4".toList],
        instructionText "sw" [op, "0(sp)".toList]] := rfl
  have hops := isOperand_stackTop (hat.isOperand op List.mem_cons_self)
  obtain ⟨w, i, hw, hread, hdecode⟩ := exists_word_of_shorthand (i := 0) h hat hexpand rfl
  obtain ⟨w', i', hw', hread', hdecode'⟩ := exists_word_of_shorthand (i := 1) h hat hexpand rfl
  rw [readInstruction_moveStack (z := -4) (by decide) rfl (by decide)] at hread
  rw [readInstruction_instructionText (m := .store) (isMnemonic_of_mem_keywords (by decide)) hops
    (List.cons_ne_nil _ _), Mnemonic.read, resolveAddress_stackTop, Except.ok_bind, scalarOperand,
    hop] at hread'
  cases hread
  cases hread'
  exact ⟨w, w', hw, hw', hdecode, hdecode'⟩

theorem exists_words_of_pop (h : Assembled source l p) (hat : StatementAt source k "pop" [op])
    (hop : readRegister? op = some x) :
    ∃ w w', p.code[k]? = some w ∧ p.code[k + 1]? = some w' ∧
      decode w = .ok (.load x stackRegister 0) ∧
      decode w' = .ok (.aluImm .add stackRegister stackRegister 4) := by
  have hexpand : Shorthand.pop.expand [op] =
      .ok [instructionText "lw" [op, "0(sp)".toList],
        instructionText "addi" ["sp".toList, "sp".toList, "4".toList]] := rfl
  have hops := isOperand_stackTop (hat.isOperand op List.mem_cons_self)
  obtain ⟨w, i, hw, hread, hdecode⟩ := exists_word_of_shorthand (i := 0) h hat hexpand rfl
  obtain ⟨w', i', hw', hread', hdecode'⟩ := exists_word_of_shorthand (i := 1) h hat hexpand rfl
  rw [readInstruction_instructionText (m := .load) (isMnemonic_of_mem_keywords (by decide)) hops
    (List.cons_ne_nil _ _), Mnemonic.read, resolveAddress_stackTop, Except.ok_bind, scalarOperand,
    hop] at hread
  rw [readInstruction_moveStack (z := 4) (by decide) rfl (by decide)] at hread'
  cases hread
  cases hread'
  exact ⟨w, w', hw, hw', hdecode, hdecode'⟩

end Words

/-! ### What pushes store -/

/-- What pushes store, the first of them below address `s` and each other one below the one
before. -/
def stackWrites (s : Word) : List Word → List (Word × Word)
  | [] => []
  | w :: ws => (s - 4, w) :: stackWrites (s - 4) ws

/-- Below address `s` there is room for `n` words, in memory and apart from the code. -/
structure StackRoom (m : Memory) (code : List Word) (s : Word) (n : Nat) : Prop where
  /-- The stack pointer is a multiple of four. -/
  aligned : s.toNat % 4 = 0
  /-- The stack does not start behind the end of memory. -/
  le_size : s.toNat ≤ m.size
  /-- It does not reach below address zero. -/
  le_toNat : 4 * n ≤ s.toNat
  /-- No byte of it belongs to the code. -/
  apart : ∀ a, s.toNat - 4 * n ≤ a → a < s.toNat → 4 * code.length ≤ a

section Writes

variable {m m' : Memory} {code : List Word} {s : Word} {n : Nat} {ws : List Word}

theorem toNat_sub_four (h : 4 ≤ s.toNat) : (s - 4).toNat = s.toNat - 4 := by
  have hs := s.isLt
  have hfour : (4 : Word).toNat = 4 := rfl
  rw [BitVec.toNat_sub, hfour]
  omega

/-- Going up by one word and then by others. -/
theorem add_ofNat_succ (s : Word) (n : Nat) :
    s + 4 + BitVec.ofNat 32 (4 * n) = s + BitVec.ofNat 32 (4 * (n + 1)) := by
  rw [Nat.mul_succ, BitVec.ofNat_add]
  bv_omega

/-- Going down by one word and then by others. -/
theorem sub_ofNat_succ (s : Word) (n : Nat) :
    s - 4 - BitVec.ofNat 32 (4 * n) = s - BitVec.ofNat 32 (4 * (n + 1)) := by
  rw [Nat.mul_succ, BitVec.ofNat_add]
  bv_omega

/-- What is left of the room behind one push. -/
theorem StackRoom.succ (h : StackRoom m code s (n + 1)) (hsize : m'.size = m.size) :
    StackRoom m' code (s - 4) n := by
  obtain ⟨haligned, hend, hle, hapart⟩ := h
  have hs := toNat_sub_four (s := s) (by omega)
  refine ⟨by omega, by omega, by omega, fun a hlow hhigh => hapart a (by omega) (by omega)⟩

/-- The word of one push can be stored. -/
theorem StackRoom.checkWord (h : StackRoom m code s (n + 1)) : m.checkWord (s - 4) = .ok () := by
  obtain ⟨haligned, hend, hle, -⟩ := h
  have hs := toNat_sub_four (s := s) (by omega)
  exact Memory.checkWord_eq_ok_iff.mpr ⟨by omega, by omega⟩

/-- The words of pushes lie one below the other. -/
theorem bounds_of_mem_stackWrites (h : 4 * ws.length ≤ s.toNat) {write : Word × Word}
    (hmem : write ∈ stackWrites s ws) :
    s.toNat - 4 * ws.length ≤ write.1.toNat ∧ write.1.toNat + 4 ≤ s.toNat := by
  induction ws generalizing s with
  | nil => cases hmem
  | cons w ws ih =>
    rw [List.length_cons] at h ⊢
    have hs := toNat_sub_four (s := s) (by omega)
    rcases List.mem_cons.mp hmem with rfl | hmem
    · simp only [hs]
      omega
    · have := ih (by omega) hmem
      omega

/-- Words that are stored in the room leave the code in memory. -/
theorem StackRoom.holds (h : StackRoom m code s n) (hm : m.Holds code)
    {writes : List (Word × Word)} (hin : ∀ write ∈ writes,
      s.toNat - 4 * n ≤ write.1.toNat ∧ write.1.toNat + 4 ≤ s.toNat)
    (hstore : m.storeWords writes = (m', .ok ())) : m'.Holds code := by
  have hbehind : ∀ write ∈ writes, 4 * code.length ≤ write.1.toNat := by
    intro write hwrite
    obtain ⟨hlow, hhigh⟩ := hin write hwrite
    exact h.apart _ hlow (by omega)
  cases writes with
  | nil =>
    cases hstore
    exact hm
  | cons write writes =>
    have hfirst := hbehind write List.mem_cons_self
    have hlt := write.1.isLt
    have hholds := hm.storeWords (by omega) hbehind
    rwa [hstore] at hholds

theorem exists_storeWords_stackWrites (h : StackRoom m code s ws.length) :
    ∃ m', m.storeWords (stackWrites s ws) = (m', .ok ()) := by
  induction ws generalizing m s with
  | nil => exact ⟨m, rfl⟩
  | cons w ws ih =>
    obtain ⟨m', hm'⟩ := ih (h.succ (Memory.size_setWord m (s - 4).toNat w))
    exact ⟨m', Memory.storeWords_cons_eq_ok_iff.mpr
      ⟨_, Memory.storeWord_eq_ok_iff.mpr ⟨h.checkWord, rfl⟩, hm'⟩⟩

/-- What has been pushed is found below the stack pointer. -/
theorem loadWord_of_stackWrites (h : 4 * ws.length ≤ s.toNat)
    (hstore : m.storeWords (stackWrites s ws) = (m', .ok ())) {i : Nat} {w : Word}
    (hi : ws[i]? = some w) : m'.loadWord (s - BitVec.ofNat 32 (4 * (i + 1))) = .ok w := by
  induction ws generalizing m s i with
  | nil => cases hi
  | cons v ws ih =>
    obtain ⟨m₁, hfirst, hrest⟩ := Memory.storeWords_cons_eq_ok_iff.mp hstore
    rw [List.length_cons] at h
    have hs := toNat_sub_four (s := s) (by omega)
    cases i with
    | zero =>
      cases hi
      refine Memory.loadWord_of_storeWords ?_ (Memory.loadWord_of_storeWord hfirst) hrest
      intro hmem
      obtain ⟨write, hwrite, heq⟩ := List.mem_map.mp hmem
      have hbounds := bounds_of_mem_stackWrites (by omega) hwrite
      rw [heq] at hbounds
      exact absurd hbounds.2 (by simp)
    | succ i =>
      rw [← sub_ofNat_succ]
      exact ih (by omega) hrest hi

end Writes

/-! ### Pushes -/

theorem Registers.poke_value {i : Nat} (hne : i ≠ 0) (r : Registers) :
    r.poke i (r.value i) = r := by
  have hscalars : r.scalars.setIfInBounds i (r.value i) = r.scalars := by
    refine Vector.ext fun j hj => ?_
    rw [Vector.getElem_setIfInBounds]
    split_ifs with h
    · subst h
      exact Registers.value_of_read (by rw [Registers.read, if_neg hne, dif_pos hj])
    · rfl
  rw [poke, hscalars]

section Pushes

variable {source op : Text} {l : Layout} {p : Program} {k x : Nat} {r : Registers} {m m' : Memory}

/-- A push stores the content of its register below the stack pointer and moves it down. -/
theorem after_push (h : Assembled source l p) (hat : StatementAt source k "push" [op])
    (hop : readRegister? op = some x) (hx : x ≠ stackRegister) (hm : m.Holds p.code)
    (hpc : r.pc = BitVec.ofNat 32 (4 * k))
    (hstore : m.storeWord (r.value stackRegister - 4) (r.value x) = (m', .ok ())) :
    Machine.after 2 ⟨r, m⟩ =
      some ⟨(r.poke stackRegister (r.value stackRegister - 4)).goto
        (BitVec.ofNat 32 (4 * (k + 2))), m'⟩ := by
  obtain ⟨w, w', hw, hw', hdecode, hdecode'⟩ := exists_words_of_push h hat hop
  have hdown : r.value stackRegister + BitVec.ofInt 32 (-4) = r.value stackRegister - 4 := by
    have hfour : BitVec.ofInt 32 (-4) = -4 := by decide
    rw [hfour, BitVec.sub_eq_add_neg]
  have hfirst := Machine.step_of_addi (by rw [hpc, hm k w hw]) hdecode
    (Registers.read_eq_value (by decide) r) (by decide)
  rw [hdown, Registers.next_eq_goto (r := r.poke _ _) hpc] at hfirst
  set r₁ := (r.poke stackRegister (r.value stackRegister - 4)).goto
    (BitVec.ofNat 32 (4 * (k + 1))) with hr₁
  have htop : r₁.value stackRegister + BitVec.ofInt 32 0 = r.value stackRegister - 4 :=
    (BitVec.add_zero _).trans (Registers.value_poke_self (by decide) (by decide) r _)
  have hkept : r₁.value x = r.value x := Registers.value_poke_of_ne hx.symm r _
  have hload : m.loadWord r₁.pc = .ok w' := hm (k + 1) w' hw'
  have hstored : m.storeWord (r₁.value stackRegister + BitVec.ofInt 32 0) (r₁.value x) =
      (m', .ok ()) := by rw [htop, hkept, hstore]
  have hsecond := Machine.step_of_store hload hdecode' hstored
  rw [Registers.next_eq_goto (k := k + 1) rfl, hr₁, Registers.goto_goto] at hsecond
  rw [Machine.after_succ 1 hfirst, Machine.after_succ 0 hsecond, Machine.after]

/-- A row of pushes stores its registers one below the other. -/
theorem after_pushes (h : Assembled source l p) {rs : List Nat} (hrow : RowAt source k "push" rs)
    (hsp : stackRegister ∉ rs) (hm : m.Holds p.code) (hpc : r.pc = BitVec.ofNat 32 (4 * k))
    (hroom : StackRoom m p.code (r.value stackRegister) rs.length)
    (hstore : m.storeWords (stackWrites (r.value stackRegister) (rs.map r.value)) = (m', .ok ())) :
    Machine.after (2 * rs.length) ⟨r, m⟩ =
      some ⟨(r.poke stackRegister
        (r.value stackRegister - BitVec.ofNat 32 (4 * rs.length))).goto
          (BitVec.ofNat 32 (4 * (k + 2 * rs.length))), m'⟩ := by
  induction rs generalizing k r m with
  | nil =>
    cases hstore
    have hzero : r.value stackRegister - BitVec.ofNat 32 (4 * 0) = r.value stackRegister :=
      BitVec.sub_zero _
    rw [List.length_nil, hzero, Registers.poke_value (by decide), Machine.after, Nat.mul_zero,
      Nat.add_zero, ← hpc]
    rfl
  | cons x rs ih =>
    obtain ⟨⟨op, hop, hat⟩, hrow⟩ := rowAt_cons_iff.mp hrow
    obtain ⟨hx, hsp⟩ := not_or.mp (mt List.mem_cons.mpr hsp)
    obtain ⟨m₁, hfirst, hrest⟩ := Memory.storeWords_cons_eq_ok_iff.mp hstore
    have hpush := after_push h hat hop (Ne.symm hx) hm hpc hfirst
    set r₁ := (r.poke stackRegister (r.value stackRegister - 4)).goto
      (BitVec.ofNat 32 (4 * (k + 2))) with hr₁
    have htop : r₁.value stackRegister = r.value stackRegister - 4 :=
      Registers.value_poke_self (by decide) (by decide) r _
    have hvalues : rs.map r₁.value = rs.map r.value :=
      List.map_congr_left fun y hy =>
        Registers.value_poke_of_ne (ne_of_mem_of_not_mem hy hsp).symm r _
    have hsize : m₁.size = m.size := by
      obtain ⟨-, rfl⟩ := Memory.storeWord_eq_ok_iff.mp hfirst
      exact Memory.size_setWord m _ _
    have hroom' : StackRoom m p.code (r.value stackRegister) ((x :: rs).map r.value).length := by
      rwa [List.length_map]
    have hwrite : m.storeWords [(r.value stackRegister - 4, r.value x)] = (m₁, .ok ()) :=
      Memory.storeWords_cons_eq_ok_iff.mpr ⟨m₁, hfirst, rfl⟩
    have hm₁ : m₁.Holds p.code := by
      refine hroom'.holds hm (List.forall_mem_singleton.mpr ?_) hwrite
      exact bounds_of_mem_stackWrites hroom'.le_toNat List.mem_cons_self
    have hrest' := ih hrow hsp hm₁ rfl (by rw [htop]; exact hroom.succ hsize)
      (by rw [htop, hvalues]; exact hrest)
    have hcount : 2 * (rs.length + 1) = 2 + 2 * rs.length := by omega
    rw [List.length_cons, hcount, Machine.after_add, hpush, Option.bind_some, hrest', htop,
      sub_ofNat_succ, hr₁, Registers.poke_goto, Registers.poke_poke, Registers.goto_goto,
      Nat.add_assoc]

end Pushes

/-! ### Registers that agree but for some -/

namespace Registers

/-- Writes scalar registers, one after the other. -/
def writeAll (r : Registers) (edits : List (Nat × Word)) : Except Fault Registers :=
  edits.foldlM (fun r edit => r.write edit.1 edit.2) r

/-- The registers agree, but for the program counter and for the scalar registers of a list. What
register zero holds agrees in any case. -/
structure AgreeBut (is : List Nat) (r r' : Registers) : Prop where
  /-- The tile registers agree. -/
  tiles : r'.tiles = r.tiles
  /-- The other scalar registers agree. -/
  scalars : ∀ i (h : i < scalarCount), i = 0 ∨ i ∉ is → r'.scalars[i] = r.scalars[i]

namespace AgreeBut

variable {is js : List Nat} {i : Nat} {r r' r'' : Registers}

theorem refl (is : List Nat) (r : Registers) : AgreeBut is r r := ⟨rfl, fun _ _ _ => rfl⟩

theorem trans (h : AgreeBut is r r') (h' : AgreeBut is r' r'') : AgreeBut is r r'' where
  tiles := h'.tiles.trans h.tiles
  scalars := fun i hlt hi => (h'.scalars i hlt hi).trans (h.scalars i hlt hi)

theorem mono (h : AgreeBut is r r') (hsub : is ⊆ js) : AgreeBut js r r' where
  tiles := h.tiles
  scalars := fun i hlt hi => h.scalars i hlt (hi.imp_right (mt (hsub ·)))

theorem goto (h : AgreeBut is r r') (addr : Word) : AgreeBut is r (r'.goto addr) :=
  ⟨h.tiles, h.scalars⟩

theorem put (h : AgreeBut is r r') (hi : i ∈ is) (v : Word) : AgreeBut is r (r'.put i v) := by
  rw [Registers.put]
  split_ifs with hzero
  · exact h
  · refine ⟨h.tiles, fun j hlt hj => ?_⟩
    have hne : i ≠ j := by
      rintro rfl
      exact hj.elim hzero (· hi)
    exact (Vector.getElem_setIfInBounds_ne hlt hne).trans (h.scalars j hlt hj)

/-- A register that gets back its content agrees from then on. -/
theorem put_value (h : AgreeBut (i :: is) r r') : AgreeBut is r (r'.put i (r.value i)) := by
  rw [Registers.put]
  split_ifs with hzero
  · subst hzero
    refine ⟨h.tiles, fun j hlt hj => h.scalars j hlt ?_⟩
    by_cases hj₀ : j = 0
    · exact .inl hj₀
    · exact .inr (List.not_mem_cons_of_ne_of_not_mem hj₀ (hj.resolve_left hj₀))
  · refine ⟨h.tiles, fun j hlt hj => ?_⟩
    rw [poke, Vector.getElem_setIfInBounds hlt]
    split_ifs with hij
    · subst hij
      exact value_of_read (by rw [read, if_neg hzero, dif_pos hlt])
    · exact h.scalars j hlt (hj.imp_right (List.not_mem_cons_of_ne_of_not_mem (Ne.symm hij)))

theorem value (h : AgreeBut is r r') (hi : i ∉ is) : r'.value i = r.value i := by
  have hread : r'.read i = r.read i := by
    rw [read, read]
    split_ifs with hzero hlt
    · rfl
    · rw [h.scalars i hlt (.inr hi)]
    · rfl
  rw [Registers.value, Registers.value, hread]

theorem eq_goto (h : AgreeBut [] r r') : r' = r.goto r'.pc := by
  obtain ⟨pc, scalars, tiles⟩ := r
  obtain ⟨pc', scalars', tiles'⟩ := r'
  obtain ⟨rfl, hscalars⟩ := h
  have hsame : scalars' = scalars :=
    Vector.ext fun i hi => hscalars i hi (.inr List.not_mem_nil)
  rw [hsame]
  rfl

theorem eq_goto_of_value (h : AgreeBut [i] r r') (hne : i ≠ 0) (hi : r'.value i = r.value i) :
    r' = r.goto r'.pc := by
  have hput := h.put_value
  rw [put_of_ne_zero hne, ← hi, poke_value hne] at hput
  exact hput.eq_goto

theorem exists_writeAll (r : Registers) {edits : List (Nat × Word)}
    (hedits : ∀ edit ∈ edits, edit.1 ∈ is ∧ edit.1 < scalarCount) :
    ∃ r', r.writeAll edits = .ok r' ∧ AgreeBut is r r' := by
  induction edits generalizing r with
  | nil => exact ⟨r, rfl, refl is r⟩
  | cons edit edits ih =>
    obtain ⟨⟨hmem, hlt⟩, hedits⟩ := List.forall_mem_cons.mp hedits
    obtain ⟨r', hwrites, hagree⟩ := ih (r.put edit.1 edit.2) hedits
    refine ⟨r', ?_, ((refl is r).put hmem edit.2).trans hagree⟩
    rw [writeAll, List.foldlM_cons, write_of_lt hlt]
    exact hwrites

end AgreeBut

end Registers

/-! ### Pops -/

section Pops

variable {source op : Text} {l : Layout} {p : Program} {k x : Nat} {r target : Registers}
  {m : Memory}

/-- A pop loads its register from where the stack pointer stands and moves it up. -/
theorem after_pop {v : Word} (h : Assembled source l p) (hat : StatementAt source k "pop" [op])
    (hop : readRegister? op = some x) (hx : x ≠ stackRegister) (hm : m.Holds p.code)
    (hpc : r.pc = BitVec.ofNat 32 (4 * k)) (hload : m.loadWord (r.value stackRegister) = .ok v) :
    Machine.after 2 ⟨r, m⟩ =
      some ⟨((r.put x v).poke stackRegister (r.value stackRegister + 4)).goto
        (BitVec.ofNat 32 (4 * (k + 2))), m⟩ := by
  obtain ⟨w, w', hw, hw', hdecode, hdecode'⟩ := exists_words_of_pop h hat hop
  have hzero : r.value stackRegister + BitVec.ofInt 32 0 = r.value stackRegister :=
    BitVec.add_zero _
  have hpc' : (r.put x v).pc = BitVec.ofNat 32 (4 * k) := by
    rw [Registers.put]
    split_ifs <;> exact hpc
  have hfirst := Machine.step_of_load (by rw [hpc, hm k w hw]) hdecode (by rw [hzero, hload])
  rw [Registers.next_eq_goto hpc'] at hfirst
  set r₁ := (r.put x v).goto (BitVec.ofNat 32 (4 * (k + 1))) with hr₁
  have htop : r₁.value stackRegister = r.value stackRegister := Registers.value_put_of_ne hx r v
  have hload' : m.loadWord r₁.pc = .ok w' := hm (k + 1) w' hw'
  have hsecond := Machine.step_of_addi hload' hdecode' (Registers.read_eq_value (by decide) r₁)
    (by decide)
  have hfour : BitVec.ofInt 32 4 = (4 : Word) := by decide
  rw [Registers.next_eq_goto (r := r₁.poke _ _) (k := k + 1) rfl, htop, hfour, hr₁,
    Registers.poke_goto, Registers.goto_goto] at hsecond
  rw [Machine.after_succ 1 hfirst, Machine.after_succ 0 hsecond, Machine.after]

/-- A row of pops gives its registers back the content that they have in `target`. -/
theorem after_pops (h : Assembled source l p) {rs : List Nat} (hrow : RowAt source k "pop" rs)
    (hsp : stackRegister ∉ rs) (hm : m.Holds p.code) (hpc : r.pc = BitVec.ofNat 32 (4 * k))
    (hagree : target.AgreeBut (rs ++ [stackRegister]) r)
    (hloads : ∀ i x, rs[i]? = some x →
      m.loadWord (r.value stackRegister + BitVec.ofNat 32 (4 * i)) = .ok (target.value x)) :
    ∃ r', Machine.after (2 * rs.length) ⟨r, m⟩ = some ⟨r', m⟩ ∧
      r'.pc = BitVec.ofNat 32 (4 * (k + 2 * rs.length)) ∧
      r'.value stackRegister = r.value stackRegister + BitVec.ofNat 32 (4 * rs.length) ∧
      target.AgreeBut [stackRegister] r' := by
  induction rs generalizing k r with
  | nil => exact ⟨r, rfl, hpc, (BitVec.add_zero _).symm, hagree⟩
  | cons x rs ih =>
    obtain ⟨⟨op, hop, hat⟩, hrow⟩ := rowAt_cons_iff.mp hrow
    obtain ⟨hx, hsp⟩ := not_or.mp (mt List.mem_cons.mpr hsp)
    have hload : m.loadWord (r.value stackRegister) = .ok (target.value x) := by
      have hzero : r.value stackRegister + BitVec.ofNat 32 (4 * 0) = r.value stackRegister :=
        BitVec.add_zero _
      have hfirst := hloads 0 x rfl
      rwa [hzero] at hfirst
    have hpop := after_pop h hat hop (Ne.symm hx) hm hpc hload
    set r₁ := ((r.put x (target.value x)).poke stackRegister (r.value stackRegister + 4)).goto
      (BitVec.ofNat 32 (4 * (k + 2))) with hr₁
    have htop : r₁.value stackRegister = r.value stackRegister + 4 :=
      Registers.value_poke_self (by decide) (by decide) _ _
    have hagree₁ : target.AgreeBut (rs ++ [stackRegister]) r₁ := by
      have hput := hagree.put_value.put (i := stackRegister) (by simp) (r.value stackRegister + 4)
      rw [Registers.put_of_ne_zero (by decide)] at hput
      exact hput.goto _
    obtain ⟨r', hafter, hpc', hvalue, hagree'⟩ := ih hrow hsp rfl hagree₁ fun i y hi => by
      rw [htop, add_ofNat_succ]
      exact hloads (i + 1) y hi
    have hcount : 2 * (rs.length + 1) = 2 + 2 * rs.length := by omega
    refine ⟨r', ?_, ?_, ?_, hagree'⟩
    · rw [List.length_cons, hcount, Machine.after_add, hpop, Option.bind_some, hafter]
    · rw [hpc', List.length_cons, hcount, Nat.add_assoc]
    · rw [hvalue, htop, add_ofNat_succ, List.length_cons]

end Pops

/-- What has been pushed is found above the stack pointer, the last word first. -/
theorem loadWord_of_stackWrites_reverse {m m' : Memory} {s w : Word} {ws : List Word}
    (h : 4 * ws.length ≤ s.toNat) (hstore : m.storeWords (stackWrites s ws) = (m', .ok ()))
    {i : Nat} (hi : ws.reverse[i]? = some w) :
    m'.loadWord (s - BitVec.ofNat 32 (4 * ws.length) + BitVec.ofNat 32 (4 * i)) = .ok w := by
  have hlt : i < ws.length := by
    have := (List.getElem?_eq_some_iff.mp hi).1
    rwa [List.length_reverse] at this
  rw [List.getElem?_reverse hlt] at hi
  have hplace : s - BitVec.ofNat 32 (4 * ws.length) + BitVec.ofNat 32 (4 * i) =
      s - BitVec.ofNat 32 (4 * (ws.length - 1 - i + 1)) := by
    have hsum : 4 * ws.length = 4 * (ws.length - 1 - i + 1) + 4 * i := by omega
    rw [hsum, BitVec.ofNat_add]
    bv_omega
  rw [hplace]
  exact loadWord_of_stackWrites h hstore hi

/-- A row of pushes leaves its registers one below the other, where there is room for them, and
moves the stack pointer below them. A row of pops in the opposite order, wherever it stands in the
code, undoes this, whatever the pushed registers have been given in between: all scalar registers,
the stack pointer among them, and all tile registers are as before the pushes, and memory has
changed nowhere but in the room. -/
theorem pops_undo_pushes {source : Text} {p : Program} (h : assemble source = .ok p)
    {rs : List Nat} (hsp : stackRegister ∉ rs) {k k' : Nat} (hpush : RowAt source k "push" rs)
    (hpop : RowAt source k' "pop" rs.reverse) {r : Registers} {m : Memory} (hm : m.Holds p.code)
    (hpc : r.pc = BitVec.ofNat 32 (4 * k))
    (hroom : StackRoom m p.code (r.value stackRegister) rs.length) :
    let s := r.value stackRegister
    let n := rs.length
    let pushed := (r.poke stackRegister (s - BitVec.ofNat 32 (4 * n))).goto
      (BitVec.ofNat 32 (4 * (k + 2 * n)))
    ∃ m', Machine.after (2 * n) ⟨r, m⟩ = some ⟨pushed, m'⟩ ∧
      (∀ i x, rs[i]? = some x →
        m'.loadWord (s - BitVec.ofNat 32 (4 * (i + 1))) = .ok (r.value x)) ∧
      m'.size = m.size ∧
      (∀ a, m'.byte a ≠ m.byte a → s.toNat - 4 * n ≤ a ∧ a < s.toNat) ∧
      ∀ edits : List (Nat × Word), (∀ edit ∈ edits, edit.1 ∈ rs) →
        ∃ edited, pushed.writeAll edits = .ok edited ∧
          Machine.after (2 * n) ⟨edited.goto (BitVec.ofNat 32 (4 * k')), m'⟩ =
            some ⟨r.goto (BitVec.ofNat 32 (4 * (k' + 2 * n))), m'⟩ := by
  intro s n pushed
  obtain ⟨l, hl⟩ := assemble_eq_ok_iff.mp h
  have hroom' : StackRoom m p.code s (rs.map r.value).length := by rwa [List.length_map]
  obtain ⟨m', hstore⟩ := exists_storeWords_stackWrites hroom'
  have hn : n = (rs.map r.value).length := (List.length_map r.value).symm
  have hbounds : ∀ write ∈ stackWrites s (rs.map r.value), _ :=
    fun write => bounds_of_mem_stackWrites hroom'.le_toNat
  refine ⟨m', after_pushes hl hpush hsp hm hpc hroom hstore, fun i x hi => ?_,
    Memory.size_of_storeWords hstore, fun a hne => ?_, fun edits hedits => ?_⟩
  · refine loadWord_of_stackWrites hroom'.le_toNat hstore ?_
    rw [List.getElem?_map, hi, Option.map_some]
  · obtain ⟨addr, hmem, hin⟩ := Memory.exists_address_of_byte_ne hstore hne
    obtain ⟨write, hwrite, rfl⟩ := List.mem_map.mp hmem
    have hwrite' := hbounds write hwrite
    rw [← hn] at hwrite'
    omega
  · have hlt : ∀ x ∈ rs, x < scalarCount := by
      intro x hx
      obtain ⟨i, hi⟩ := List.mem_iff_getElem?.mp hx
      obtain ⟨op, hop, -⟩ := hpush i x hi
      exact lt_of_readRegister? hop
    obtain ⟨edited, hwrites, hedited⟩ := Registers.AgreeBut.exists_writeAll pushed
      fun edit he => ⟨hedits edit he, hlt _ (hedits edit he)⟩
    refine ⟨edited, hwrites, ?_⟩
    set back := edited.goto (BitVec.ofNat 32 (4 * k')) with hback
    have hbottom : back.value stackRegister = s - BitVec.ofNat 32 (4 * n) :=
      (hedited.value hsp).trans (Registers.value_poke_self (by decide) (by decide) r _)
    -- The pushes have changed the stack pointer, and the edits the registers of the row.
    have hagree : r.AgreeBut (rs.reverse ++ [stackRegister]) back := by
      have hpushed := (Registers.AgreeBut.refl (rs.reverse ++ [stackRegister]) r).put
        (i := stackRegister) (by simp) (s - BitVec.ofNat 32 (4 * n))
      rw [Registers.put_of_ne_zero (by decide)] at hpushed
      exact ((hpushed.goto _).trans (hedited.mono (by simp))).goto _
    have hafter := after_pops hl hpop (by simpa using hsp)
      (hroom'.holds hm hbounds hstore) (r := back) rfl hagree fun i x hi => by
        rw [hbottom, hn]
        refine loadWord_of_stackWrites_reverse hroom'.le_toNat hstore ?_
        rw [← List.map_reverse, List.getElem?_map, hi, Option.map_some]
    rw [List.length_reverse] at hafter
    obtain ⟨r', hafter, hpc', htop, hagree'⟩ := hafter
    have hs : r'.value stackRegister = s := by rw [htop, hbottom, BitVec.sub_add_cancel]
    rw [hafter, hagree'.eq_goto_of_value (by decide) hs, hpc']

/-- A register that is pushed twice, with register zero in between. -/
def stackSource : Text := "push t0\npush zero\npush t0\npop t0\npop zero\npop t0\nhalt".toList

/-- The program of these pushes and pops. -/
def stackProgram : Program where
  code := [0xFFC10113, 0x00512023, 0xFFC10113, 0x00012023, 0xFFC10113, 0x00512023, 0x00012283,
    0x00410113, 0x00012003, 0x00410113, 0x00012283, 0x00410113, 0xFFFFFFFF]
  data := []
  dataBase := 0x200

/-- A stack at the end of a memory of 128 bytes, and something to be pushed. -/
def stackUser : Registers := (Registers.cleared.poke stackRegister 128).poke 5 7

theorem pops_undo_pushes_of_repeated :
    assemble stackSource = .ok stackProgram ∧
      (Memory.ofImage stackProgram.image 128).Holds stackProgram.code ∧
      StackRoom (Memory.ofImage stackProgram.image 128) stackProgram.code 128 3 ∧
      ∃ m', Machine.after 6 ⟨stackUser, Memory.ofImage stackProgram.image 128⟩ =
          some ⟨(stackUser.poke stackRegister 116).goto 24, m'⟩ ∧
        m'.loadWord 116 = .ok 7 ∧
        ∃ edited, ((stackUser.poke stackRegister 116).goto 24).writeAll [(5, 9), (0, 1)] =
            .ok edited ∧
          Machine.after 6 ⟨edited.goto 24, m'⟩ = some ⟨stackUser.goto 48, m'⟩ := by
  have hp : assemble stackSource = .ok stackProgram := by decide +kernel
  have hm : (Memory.ofImage stackProgram.image 128).Holds stackProgram.code :=
    Memory.holds_iff.mpr (by decide +kernel)
  have hroom : StackRoom (Memory.ofImage stackProgram.image 128) stackProgram.code
      (stackUser.value stackRegister) 3 := by
    have hs : (stackUser.value stackRegister).toNat = 128 := by decide +kernel
    have hcode : stackProgram.code.length = 13 := rfl
    refine ⟨by decide +kernel, by decide +kernel, by decide +kernel, fun a hlow _ => ?_⟩
    rw [hs] at hlow
    omega
  have hpush : RowAt stackSource 0 "push" [5, 0, 5] := by
    refine rowAt_cons_iff.mpr ⟨⟨"t0".toList, ?_, 0, ⟨1, "push t0".toList⟩, ?_, ?_, ?_, ?_⟩,
      rowAt_cons_iff.mpr ⟨⟨"zero".toList, ?_, 1, ⟨2, "push zero".toList⟩, ?_, ?_, ?_, ?_⟩,
        rowAt_cons_iff.mpr ⟨⟨"t0".toList, ?_, 2, ⟨3, "push t0".toList⟩, ?_, ?_, ?_, ?_⟩,
          rowAt_nil stackSource 6 "push"⟩⟩⟩
    all_goals decide +kernel
  have hpop : RowAt stackSource 6 "pop" [5, 0, 5].reverse := by
    refine rowAt_cons_iff.mpr ⟨⟨"t0".toList, ?_, 3, ⟨4, "pop t0".toList⟩, ?_, ?_, ?_, ?_⟩,
      rowAt_cons_iff.mpr ⟨⟨"zero".toList, ?_, 4, ⟨5, "pop zero".toList⟩, ?_, ?_, ?_, ?_⟩,
        rowAt_cons_iff.mpr ⟨⟨"t0".toList, ?_, 5, ⟨6, "pop t0".toList⟩, ?_, ?_, ?_, ?_⟩,
          rowAt_nil stackSource 12 "pop"⟩⟩⟩
    all_goals decide +kernel
  have hbottom : stackUser.value stackRegister - BitVec.ofNat 32 (4 * 3) = 116 := by
    decide +kernel
  have hfirst : stackUser.value stackRegister - BitVec.ofNat 32 (4 * (2 + 1)) = 116 := by
    decide +kernel
  obtain ⟨m', hpushed, hloads, -, -, hedits⟩ :=
    pops_undo_pushes hp (by decide) hpush hpop hm rfl hroom
  have hlast := hloads 2 5 rfl
  obtain ⟨edited, hwrites, hpopped⟩ := hedits [(5, 9), (0, 1)] (by decide)
  simp only [List.length_cons, List.length_nil] at hpushed hwrites
  rw [hbottom] at hpushed hwrites
  rw [hfirst] at hlast
  exact ⟨hp, hm, hroom, m', hpushed, hlast, edited, hwrites, hpopped⟩

end TileCore
