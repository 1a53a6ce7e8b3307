import Brainfuck.Text.Lines

/-! The fixed text around the statements of every generated program: the tape functions before them,
and the end of the main function after them. -/
namespace Brainfuck.Emit

def includeLines : List String :=
  [
    "#include <stdio.h>",
    "#include <stdlib.h>",
    "#include <string.h>",
    ""
  ]

def tapeLines : List String :=
  [
    "struct tape \x7b",
    "    unsigned char *cells;",
    "    size_t length;",
    "    size_t index;",
    "\x7d;",
    "",
    "static struct tape tape;",
    ""
  ]

def failLines : List String :=
  [
    "static void fail(const char *message) \x7b",
    "    fflush(stdout);",
    "    fprintf(stderr, \"failed during execution: %s\\n\", message);",
    "    exit(1);",
    "\x7d",
    ""
  ]

def allocateLines : List String :=
  [
    "static void tape_init(size_t length) \x7b",
    "    tape.cells = calloc(length, 1);",
    "    if (tape.cells == NULL) \x7b",
    "        fail(\"cannot allocate memory\");",
    "    \x7d",
    "    tape.length = length;",
    "    tape.index = 0;",
    "\x7d",
    ""
  ]

def moveRightLines : List String :=
  [
    "static void move_right(size_t n) \x7b",
    "    size_t needed;",
    "    unsigned char *grown;",
    "    if (n > (size_t)-1 - tape.index - 1) \x7b",
    "        fail(\"cannot allocate memory\");",
    "    \x7d",
    "    tape.index += n;",
    "    if (tape.index < tape.length) \x7b",
    "        return;",
    "    \x7d",
    "    needed = tape.index + 1;",
    "    grown = realloc(tape.cells, needed);",
    "    if (grown == NULL) \x7b",
    "        fail(\"cannot allocate memory\");",
    "    \x7d",
    "    memset(grown + tape.length, 0, needed - tape.length);",
    "    tape.cells = grown;",
    "    tape.length = needed;",
    "\x7d",
    ""
  ]

def moveLeftLines : List String :=
  [
    "static void move_left(size_t n) \x7b",
    "    if (n > tape.index) \x7b",
    "        fail(\"negative memory addresses are invalid\");",
    "    \x7d",
    "    tape.index -= n;",
    "\x7d",
    ""
  ]

def incrementLines : List String :=
  [
    "static void increment(unsigned char n) \x7b",
    "    tape.cells[tape.index] = (unsigned char)(tape.cells[tape.index] + n);",
    "\x7d",
    ""
  ]

def decrementLines : List String :=
  [
    "static void decrement(unsigned char n) \x7b",
    "    tape.cells[tape.index] = (unsigned char)(tape.cells[tape.index] - n);",
    "\x7d",
    ""
  ]

def outputLines : List String :=
  [
    "static void output(void) \x7b",
    "    if (putchar(tape.cells[tape.index]) == EOF) \x7b",
    "        fail(\"cannot write to stdout\");",
    "    \x7d",
    "\x7d",
    ""
  ]

def inputLines : List String :=
  [
    "static void input(void) \x7b",
    "    int value;",
    "    if (fflush(stdout) == EOF) \x7b",
    "        fail(\"cannot write to stdout\");",
    "    \x7d",
    "    value = getchar();",
    "    if (value == EOF) \x7b",
    "        fail(\"cannot read stdin\");",
    "    \x7d",
    "    tape.cells[tape.index] = (unsigned char)value;",
    "\x7d",
    ""
  ]

/-- The functions that statements call, by name. -/
def definitions : List (String × List String) :=
  [
    ("tape_init", allocateLines),
    ("move_right", moveRightLines),
    ("move_left", moveLeftLines),
    ("increment", incrementLines),
    ("decrement", decrementLines),
    ("output", outputLines),
    ("input", inputLines)
  ]

def openingLines : List String :=
  includeLines ++ tapeLines ++ failLines ++ definitions.flatMap Prod.snd ++ ["int main(void) \x7b"]

def closingLines : List String :=
  [
    "    if (fflush(stdout) == EOF) \x7b",
    "        fail(\"cannot write to stdout\");",
    "    \x7d",
    "    free(tape.cells);",
    "    return 0;",
    "\x7d"
  ]

def opening : String := Text.unlines openingLines

def closing : String := Text.unlines closingLines

end Brainfuck.Emit
