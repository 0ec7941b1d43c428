set_option autoImplicit false

namespace LedgerReport.Digest

structure State where
  a : UInt32
  b : UInt32
  c : UInt32
  d : UInt32
  e : UInt32

def State.initial : State := ⟨0x67452301, 0xEFCDAB89, 0x98BADCFE, 0x10325476, 0xC3D2E1F0⟩

def State.add (s t : State) : State := ⟨s.a + t.a, s.b + t.b, s.c + t.c, s.d + t.d, s.e + t.e⟩

def rotate (x : UInt32) (n : UInt32) : UInt32 := (x <<< n) ||| (x >>> (32 - n))

def lengthBytes (n : Nat) : List UInt8 :=
  (List.range 8).map fun i => UInt8.ofNat (n / Nat.pow 2 (8 * (7 - i)))

def padded (bytes : List UInt8) : List UInt8 :=
  let zeros := (119 - bytes.length % 64) % 64
  bytes ++ 0x80 :: (List.replicate zeros 0 ++ lengthBytes (8 * bytes.length))

def words : List UInt8 → List UInt32
  | a :: b :: c :: d :: r =>
    ((a.toUInt32 <<< 24) ||| (b.toUInt32 <<< 16) ||| (c.toUInt32 <<< 8) ||| d.toUInt32) :: words r
  | _ => []

def extended (block : Array UInt32) : Array UInt32 :=
  (List.range 64).foldl (fun w i =>
    w.push (rotate (w.getD (i + 13) 0 ^^^ w.getD (i + 8) 0 ^^^ w.getD (i + 2) 0 ^^^ w.getD i 0) 1))
    block

def mix (w : Array UInt32) (s : State) (i : Nat) : State :=
  let (f, k) : UInt32 × UInt32 :=
    if i < 20 then ((s.b &&& s.c) ||| ((s.b ^^^ 0xFFFFFFFF) &&& s.d), 0x5A827999)
    else if i < 40 then (s.b ^^^ s.c ^^^ s.d, 0x6ED9EBA1)
    else if i < 60 then ((s.b &&& s.c) ||| (s.b &&& s.d) ||| (s.c &&& s.d), 0x8F1BBCDC)
    else (s.b ^^^ s.c ^^^ s.d, 0xCA62C1D6)
  ⟨rotate s.a 5 + f + s.e + k + w.getD i 0, s.a, rotate s.b 30, s.c, s.d⟩

def absorb (s : State) (block : Array UInt32) : State :=
  s.add ((List.range 80).foldl (mix (extended block)) s)

def absorbAll (s : State) : Nat → List UInt32 → State
  | 0, _ => s
  | blocks + 1, ws => absorbAll (absorb s (ws.take 16).toArray) blocks (ws.drop 16)

def hexWord (x : UInt32) : List Char :=
  (List.range 8).map fun i =>
    let d := x.toNat / Nat.pow 16 (7 - i) % 16
    if d < 10 then Char.ofNat (48 + d) else Char.ofNat (87 + d)

def hex (s : String) : String :=
  let ws := words (padded s.toUTF8.toList)
  let t := absorbAll .initial (ws.length / 16) ws
  String.ofList ([t.a, t.b, t.c, t.d, t.e].flatMap hexWord)

end LedgerReport.Digest
