import PeerDiscovery.Wire.Key

/-! Passing over a field that a record does not have.
A group is passed over with everything inside it. The nesting of groups is bounded, so the open
groups are kept as a list of their tags, innermost first. -/
namespace PeerDiscovery
namespace Wire
namespace Reader

def skipScalar : WireType → Reader Unit
  | .varint => do let _ ← varint
  | .sixtyFourBit => do let _ ← block 8
  | .thirtyTwoBit => do let _ ← block 4
  | .lengthDelimited => do let _ ← block (← varint)
  | .startGroup | .endGroup => fail .unexpectedEndGroup

/-- Passes over what is left of the open groups. A field inside `n` open groups is refused where no
more than `n` levels are allowed. -/
def skipOpen (levels : Nat) : List Nat → Input → Except Fault (Unit × Input)
  | [], i => .ok ((), i)
  | tag :: outer, i =>
    match _h : key.run i with
    | .error e => .error e
    | .ok (k, j) =>
      match k.wireType with
      | .endGroup =>
        if k.tag = tag then skipOpen levels outer j else .error ⟨[], .unexpectedEndGroup⟩
      | wireType =>
        if levels ≤ (tag :: outer).length then .error ⟨[], .recursionLimit⟩
        else if wireType = .startGroup then skipOpen levels (k.tag :: tag :: outer) j
        else
          match _h' : (skipScalar wireType).run j with
          | .error e => .error e
          | .ok (_, j') => skipOpen levels (tag :: outer) j'
termination_by _ i => i.size
decreasing_by
  · exact size_of_key _h
  · exact size_of_key _h
  · exact Nat.lt_of_le_of_lt ((skipScalar wireType).size_le _h') (size_of_key _h)

theorem size_of_skipOpen {levels : Nat} {opened : List Nat} {i j : Input}
    (h : skipOpen levels opened i = .ok ((), j)) : j.size ≤ i.size := by
  fun_induction skipOpen levels opened i with
  | case1 => cases h; exact Nat.le_refl _
  | case2 | case4 | case5 | case7 => cases h
  | case3 =>
    rename_i hk _ ih
    exact Nat.le_trans (ih h) (Nat.le_of_lt (size_of_key hk))
  | case6 =>
    rename_i hk _ _ _ ih
    exact Nat.le_trans (ih h) (Nat.le_of_lt (size_of_key hk))
  | case8 =>
    rename_i hk _ _ _ _ _ hs ih
    exact Nat.le_trans (ih h) (Nat.le_trans (Reader.size_le _ hs) (Nat.le_of_lt (size_of_key hk)))

/-- Passes over the value of an unknown field where `levels` levels of nesting are left. -/
def skip (levels : Nat) (k : Key) : Reader Unit :=
  if levels = 0 then fail .recursionLimit
  else if k.wireType = .startGroup then ⟨skipOpen levels [k.tag], size_of_skipOpen⟩
  else skipScalar k.wireType

end Reader
end Wire
end PeerDiscovery
