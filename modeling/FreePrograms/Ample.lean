/-
# A bound on loops

Running a program and driving steps are loops whose length no argument shows, because a program
decides as it runs how long it goes on.  Each such loop takes the number of turns that it may make
as an argument, and says so when they run out.  What a caller uses gives it `ample` turns.
-/

namespace FreePrograms

/-- More turns than any run makes: at a thousand million a second they last for a century. -/
def ample : Nat := 0x3fffffffffffffff

end FreePrograms
