import AccessReplay.File.Tree

/-!
# The standard tree

The tree of files that a system has before any program of interest has run, as far
as one can count on it: the folders that belong to every system, the devices, the
reports on the system and on the running program, and one folder for the program
to work in (`workplace`).  What a text of the system says is left out, for none of them
is a dump; one and the same line stands for all.
-/

namespace AccessReplay

/-- What stands for the text of a file or a report. -/
def systemText : List UInt8 := "# text\n".toUTF8.toList

/-- What is read from a device. -/
def Device.contents : Device → Except FileFault (List UInt8)
  | .terminal => .error .noDevice
  | .memory => .error .inputOutput
  | .report _ => .ok systemText
  | _ => .ok []

namespace StandardTree

/-- Where the program works: in a folder of its own, whose name no path can spell. -/
def workplace : Place := ["tmp", ""]

/-- Entries that are all the same. -/
def each (entry : FileTree) (names : List String) : List (String × FileTree) :=
  names.map fun name => (name, entry)

/-- A folder in which new files can be made. -/
def folder (entries : List (String × FileTree)) : FileTree := .folder entries none

/-- Folders of which nothing is known but that they are there. -/
def folders : List String → List (String × FileTree) := each (folder [])

/-- Texts of the system. -/
def texts : List String → List (String × FileTree) := each (.file systemText)

/-- The devices, by which a program also reaches its own streams. -/
def devices : FileTree :=
  folder <|
    each (.device .null) ["null", "zero", "random", "urandom"] ++ folders ["shm"] ++
      [("full", .device .full), ("tty", .device .terminal),
        ("fd", .link ["proc", "self", "fd"]), ("stdin", .link ["proc", "self", "fd", "0"]),
        ("stdout", .link ["proc", "self", "fd", "1"]),
        ("stderr", .link ["proc", "self", "fd", "2"]),
        ("pts", .folder [] (some .permissionDenied))]

/-- A folder of reports, which the system alone makes. -/
def reports (entries : List (String × FileTree)) : FileTree := .folder entries (some .notFound)

/-- The streams of the program by number.  Nothing comes in on the first one. -/
def streams : FileTree :=
  reports
    [("0", .device .null), ("1", .device (.stream .output)), ("2", .device (.stream .errors))]

/-- Reports on the running program. -/
def onProgram : FileTree :=
  reports <|
    [("fd", streams), ("cwd", .link workplace), ("root", .link []), ("mem", .device .memory)] ++
      each (reports []) ["attr", "fdinfo", "net", "ns", "task"] ++
      each (.device (.report .invalidArgument))
        ["cgroup", "cmdline", "environ", "limits", "maps", "mountinfo", "mounts", "smaps",
          "stat", "statm", "status"]

/-- Reports on the system. -/
def onSystem : FileTree :=
  reports <|
    [("self", onProgram), ("thread-self", .link ["proc", "self"]),
      ("mounts", .link ["proc", "self", "mounts"]), ("net", .link ["proc", "self", "net"])] ++
      each (reports []) ["1", "bus", "driver", "fs", "irq", "sys", "tty"] ++
      each (.device (.report .inputOutput))
        ["cmdline", "cpuinfo", "devices", "filesystems", "interrupts", "loadavg", "meminfo",
          "partitions", "stat", "uptime", "version", "vmstat"]

/-- What the system knows of its hardware. -/
def hardware : FileTree :=
  let closed : List (String × FileTree) → FileTree := (.folder · (some .permissionDenied))
  closed <| each (closed [])
    ["block", "bus", "class", "dev", "devices", "firmware", "fs", "kernel", "module", "power"]

/-- The settings of the system. -/
def settings : FileTree :=
  folder <|
    folders ["alternatives", "cron.d", "default", "init.d", "opt", "profile.d", "skel", "ssl"] ++
      texts ["fstab", "group", "hostname", "hosts", "os-release", "passwd", "profile",
        "resolv.conf", "services", "shadow", "shells"]

/-- What is installed. -/
def installed : FileTree :=
  folder <|
    folders ["games", "include", "lib64", "libexec", "sbin", "src"] ++
      [("bin", folder (texts ["env", "sh"])), ("lib", folder (folders ["x86_64-linux-gnu"])),
        ("share", folder (folders ["doc", "man", "zoneinfo"])),
        ("local",
          folder (folders ["bin", "etc", "games", "include", "lib", "sbin", "share", "src"]))]

/-- What changes while the system runs. -/
def changing : FileTree :=
  folder <|
    folders ["backups", "cache", "lib", "local", "log", "mail", "opt", "spool", "tmp"] ++
      [("run", .link ["run"]), ("lock", .link ["run", "lock"])]

/-- The standard tree with the folder that the program works in. -/
def around (work : FileTree) : FileTree :=
  folder <|
    folders ["boot", "home", "media", "mnt", "opt", "root", "srv"] ++
      [("bin", .link ["usr", "bin"]), ("sbin", .link ["usr", "sbin"]),
        ("lib", .link ["usr", "lib"]), ("lib64", .link ["usr", "lib64"]), ("dev", devices),
        ("etc", settings), ("proc", onSystem), ("run", folder (folders ["lock"])),
        ("sys", hardware), ("tmp", folder [("", work)]), ("usr", installed), ("var", changing)]

end StandardTree
end AccessReplay
