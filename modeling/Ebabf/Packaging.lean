import Ebabf.Py.Float

/-!
# The systemd unit

What varies between installs, and the unit file rendered from it.
-/

namespace Ebabf

open Py (Str str join decimal floatRepr)

/-- The exit code of a deliberate stop, which the unit declares as one not to restart from. -/
def EXIT_STORAGE_HALTED : ℕ := 78

structure UnitSpec where
  name : Str := str "ebabf-agent"
  description : Str := str "EB-ABF behavioural firewall agent"
  executable : Str := str "/usr/local/bin/ebabf-agent"
  command : Str := str "run"
  interval : Float := 30.0
  user : Str := str "root"
  workingDirectory : Str := str "/var/lib/ebabf"
  extraArgs : List Str := []

namespace UnitSpec

def filename (spec : UnitSpec) : Str := spec.name ++ str ".service"

/-- `exec_start` -/
def execStart (spec : UnitSpec) : Str :=
  join (str " ") ([spec.executable, spec.command, str "--interval", floatRepr spec.interval] ++
    spec.extraArgs)

end UnitSpec

/-- The lines of `_TEMPLATE`, filled in. -/
def unitLines (spec : UnitSpec) : List Str :=
  [str "[Unit]",
    str "Description=" ++ spec.description,
    str "Documentation=https://github.com/Azozsm16/W",
    str "After=network-online.target",
    str "Wants=network-online.target",
    str "# systemd's default start rate limit is 5 starts in 10 seconds; once hit, the",
    str "# unit enters failed state and is NOT restarted again. A 14-day recording must",
    str "# not end because of one burst of fast restarts, so the limit is removed.",
    str "StartLimitIntervalSec=0",
    [],
    str "[Service]",
    str "Type=simple",
    str "ExecStart=" ++ spec.execStart,
    str "User=" ++ spec.user,
    str "WorkingDirectory=" ++ spec.workingDirectory,
    [],
    str "Restart=always",
    str "RestartSec=10",
    str "# Exit " ++ decimal EXIT_STORAGE_HALTED ++
      str " means recording stopped deliberately because free disk space",
    str "# reached the floor. Restarting would hit the same floor at once; the reason is",
    str "# already written to the coverage_gaps table.",
    str "RestartPreventExitStatus=" ++ decimal EXIT_STORAGE_HALTED,
    [],
    str "# SIGTERM lets the agent close the databases and stop its collectors cleanly.",
    str "KillSignal=SIGTERM",
    str "TimeoutStopSec=30",
    [],
    str "StandardOutput=journal",
    str "StandardError=journal",
    str "SyslogIdentifier=" ++ spec.name,
    [],
    str "[Install]",
    str "WantedBy=multi-user.target"]

/-- `render_unit` -/
def renderUnit (spec : UnitSpec) : Str := (unitLines spec).flatMap fun line => line ++ str "\n"

end Ebabf
