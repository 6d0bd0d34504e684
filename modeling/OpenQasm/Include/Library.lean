/-!
# Built-in libraries

The two libraries of gates that a program may include without having them on its disk: the one of
version 3 and the one of version 2.
-/

namespace OpenQasm

/-- A library that comes with the program. -/
structure Library where
  name : String
  text : String
deriving DecidableEq, Repr

namespace Library

/-- The standard gates of version 3. -/
def stdgates : Library where
  name := "stdgates.inc"
  text := "// OpenQASM 3 standard gate library

// phase gate
gate p(λ) a \x7b ctrl @ gphase(λ) a; \x7d

// Pauli gate: bit-flip or NOT gate
gate x a \x7b U(π, 0, π) a; \x7d
// Pauli gate: bit and phase flip
gate y a \x7b U(π, π/2, π/2) a; \x7d
// Pauli gate: phase flip
gate z a \x7b p(π) a; \x7d

// Clifford gate: Hadamard
gate h a \x7b U(π/2, 0, π) a; \x7d
// Clifford gate: sqrt(Z) or S gate
gate s a \x7b pow(1/2) @ z a; \x7d
// Clifford gate: inverse of sqrt(Z)
gate sdg a \x7b inv @ pow(1/2) @ z a; \x7d

// sqrt(S) or T gate
gate t a \x7b pow(1/2) @ s a; \x7d
// inverse of sqrt(S)
gate tdg a \x7b inv @ pow(1/2) @ s a; \x7d

// sqrt(NOT) gate
gate sx a \x7b pow(1/2) @ x a; \x7d

// Rotation around X-axis
gate rx(θ) a \x7b U(θ, -π/2, π/2) a; \x7d
// rotation around Y-axis
gate ry(θ) a \x7b U(θ, 0, 0) a; \x7d
// rotation around Z axis
gate rz(λ) a \x7b gphase(-λ/2); U(0, 0, λ) a; \x7d

// controlled-NOT
gate cx a, b \x7b ctrl @ x a, b; \x7d
// controlled-Y
gate cy a, b \x7b ctrl @ y a, b; \x7d
// controlled-Z
gate cz a, b \x7b ctrl @ z a, b; \x7d
// controlled-phase
gate cp(λ) a, b \x7b ctrl @ p(λ) a, b; \x7d
// controlled-rx
gate crx(θ) a, b \x7b ctrl @ rx(θ) a, b; \x7d
// controlled-ry
gate cry(θ) a, b \x7b ctrl @ ry(θ) a, b; \x7d
// controlled-rz
gate crz(θ) a, b \x7b ctrl @ rz(θ) a, b; \x7d
// controlled-H
gate ch a, b \x7b ctrl @ h a, b; \x7d

// swap
gate swap a, b \x7b cx a, b; cx b, a; cx a, b; \x7d

// Toffoli
gate ccx a, b, c \x7b ctrl @ ctrl @ x a, b, c; \x7d
// controlled-swap
gate cswap a, b, c \x7b ctrl @ swap a, b, c; \x7d

// four parameter controlled-U gate with relative phase
gate cu(θ, φ, λ, γ) a, b \x7b p(γ) a; ctrl @ U(θ, φ, λ) a, b; \x7d

// Gates for OpenQASM 2 backwards compatibility
// CNOT
gate CX a, b \x7b ctrl @ U(π, 0, π) a, b; \x7d
// phase gate
gate phase(λ) q \x7b U(0, 0, λ) q; \x7d
// controlled-phase
gate cphase(λ) a, b \x7b ctrl @ phase(λ) a, b; \x7d
// identity or idle gate
gate id a \x7b U(0, 0, 0) a; \x7d
// IBM Quantum experience gates
gate u1(λ) q \x7b U(0, 0, λ) q; \x7d
gate u2(φ, λ) q \x7b gphase(-(φ+λ+π/2)/2); U(π/2, φ, λ) q; \x7d
gate u3(θ, φ, λ) q \x7b gphase(-(φ+λ+θ)/2); U(θ, φ, λ) q; \x7d
"

/-- The standard gates of version 2. -/
def qelib1 : Library where
  name := "qelib1.inc"
  text := "// Quantum Experience (QE) Standard Header
// file: qelib1.inc

// --- QE Hardware primitives ---

// 3-parameter 2-pulse single qubit gate
gate u3(theta,phi,lambda) q \x7b U(theta,phi,lambda) q; \x7d
// 2-parameter 1-pulse single qubit gate
gate u2(phi,lambda) q \x7b U(pi/2,phi,lambda) q; \x7d
// 1-parameter 0-pulse single qubit gate
gate u1(lambda) q \x7b U(0,0,lambda) q; \x7d
// controlled-NOT
gate cx c,t \x7b CX c,t; \x7d
// idle gate (identity)
gate id a \x7b U(0,0,0) a; \x7d
// idle gate (identity) with length gamma*sqglen
gate u0(gamma) q \x7b U(0,0,0) q; \x7d

// --- QE Standard Gates ---

// generic single qubit gate
gate u(theta,phi,lambda) q \x7b U(theta,phi,lambda) q; \x7d
// phase gate
gate p(lambda) q \x7b U(0,0,lambda) q; \x7d
// Pauli gate: bit-flip
gate x a \x7b u3(pi,0,pi) a; \x7d
// Pauli gate: bit and phase flip
gate y a \x7b u3(pi,pi/2,pi/2) a; \x7d
// Pauli gate: phase flip
gate z a \x7b u1(pi) a; \x7d
// Clifford gate: Hadamard
gate h a \x7b u2(0,pi) a; \x7d
// Clifford gate: sqrt(Z) phase gate
gate s a \x7b u1(pi/2) a; \x7d
// Clifford gate: conjugate of sqrt(Z)
gate sdg a \x7b u1(-pi/2) a; \x7d
// C3 gate: sqrt(S) phase gate
gate t a \x7b u1(pi/4) a; \x7d
// C3 gate: conjugate of sqrt(S)
gate tdg a \x7b u1(-pi/4) a; \x7d

// --- Standard rotations ---

// Rotation around X-axis
gate rx(theta) a \x7b u3(theta,-pi/2,pi/2) a; \x7d
// rotation around Y-axis
gate ry(theta) a \x7b u3(theta,0,0) a; \x7d
// rotation around Z axis
gate rz(phi) a \x7b u1(phi) a; \x7d

// --- QE Standard User-Defined Gates  ---

// sqrt(X)
gate sx a \x7b sdg a; h a; sdg a; \x7d
// inverse sqrt(X)
gate sxdg a \x7b s a; h a; s a; \x7d
// controlled-Phase
gate cz a,b \x7b h b; cx a,b; h b; \x7d
// controlled-Y
gate cy a,b \x7b sdg b; cx a,b; s b; \x7d
// swap
gate swap a,b \x7b cx a,b; cx b,a; cx a,b; \x7d
// controlled-H
gate ch a,b \x7b
  h b; sdg b;
  cx a,b;
  h b; t b;
  cx a,b;
  t b; h b; s b; x b; s a;
\x7d
// C3 gate: Toffoli
gate ccx a,b,c
\x7b
  h c;
  cx b,c; tdg c;
  cx a,c; t c;
  cx b,c; tdg c;
  cx a,c; t b; t c; h c;
  cx a,b; t a; tdg b;
  cx a,b;
\x7d
// cswap (Fredkin)
gate cswap a,b,c
\x7b
  cx c,b;
  ccx a,b,c;
  cx c,b;
\x7d
// controlled rx rotation
gate crx(lambda) a,b
\x7b
  u1(pi/2) b;
  cx a,b;
  u3(-lambda/2,0,0) b;
  cx a,b;
  u3(lambda/2,-pi/2,0) b;
\x7d
// controlled ry rotation
gate cry(lambda) a,b
\x7b
  ry(lambda/2) b;
  cx a,b;
  ry(-lambda/2) b;
  cx a,b;
\x7d
// controlled rz rotation
gate crz(lambda) a,b
\x7b
  rz(lambda/2) b;
  cx a,b;
  rz(-lambda/2) b;
  cx a,b;
\x7d
// controlled phase rotation
gate cu1(lambda) a,b
\x7b
  u1(lambda/2) a;
  cx a,b;
  u1(-lambda/2) b;
  cx a,b;
  u1(lambda/2) b;
\x7d
gate cp(lambda) a,b
\x7b
  p(lambda/2) a;
  cx a,b;
  p(-lambda/2) b;
  cx a,b;
  p(lambda/2) b;
\x7d
// controlled-U
gate cu3(theta,phi,lambda) c, t
\x7b
  u1((lambda+phi)/2) c;
  u1((lambda-phi)/2) t;
  cx c,t;
  u3(-theta/2,0,-(phi+lambda)/2) t;
  cx c,t;
  u3(theta/2,phi,0) t;
\x7d
// two-qubit XX rotation
gate rxx(theta) a,b
\x7b
  u3(pi/2, theta, 0) a;
  h b;
  cx a,b;
  u1(-theta) b;
  cx a,b;
  h b;
  u2(-pi, pi-theta) a;
\x7d
// two-qubit ZZ rotation
gate rzz(theta) a,b
\x7b
  cx a,b;
  u1(theta) b;
  cx a,b;
\x7d
"

def all : List Library := [stdgates, qelib1]

/-- The library of a name. -/
def find? (name : String) : Option Library := all.find? (·.name == name)

end Library

end OpenQasm
